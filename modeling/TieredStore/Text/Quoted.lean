import TieredStore.Text.Shapeless

/-!
# Quoted text

A text between double quotes, in which every character that would break the line, end the quotes
or show no shape is written as an escape: a backslash and a letter for the common ones, a
backslash and the code point in braces for the others.
-/

namespace TieredStore.Text

/-- The escape of a code point: its hexadecimal digits, without leading zeros, in braces. -/
def escapeCode (c : Char) : List Char :=
  ['\\', 'u', '\x7b'] ++ Nat.toDigits 16 c.toNat ++ ['\x7d']

/-- How a character is written between quotes. -/
def escape (c : Char) : List Char :=
  match c with
  | '\x00' => ['\\', '0']
  | '\t' => ['\\', 't']
  | '\r' => ['\\', 'r']
  | '\n' => ['\\', 'n']
  | '"' => ['\\', '"']
  | '\\' => ['\\', '\\']
  | c => if isShapeless c then escapeCode c else [c]

/-- A text in quotes, character by character. -/
def quoteChars (text : List Char) : List Char :=
  '"' :: text.flatMap escape ++ ['"']

/-- A text in quotes. -/
def quote (text : String) : String :=
  String.ofList (quoteChars text.toList)

end TieredStore.Text
