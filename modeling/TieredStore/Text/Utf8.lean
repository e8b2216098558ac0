import TieredStore.Bytes

/-!
# Bytes read as UTF-8

A string of bytes is cut into pieces: whole characters, and stretches that no character can
contain. A stretch is as long as it could still have become a character, so a leading byte whose
tail is broken off is one stretch with the part of the tail that was right. Two readings follow
from the cut: one stops at the first stretch and says where it is, the other puts a replacement
character in the place of each.
-/

namespace TieredStore.Utf8

/-- What is left of a character that has begun: how many bytes were read, how many are owed, and
between which values the next one must lie. -/
structure Begun where
  /-- The bytes read, the last one first. -/
  read : Bytes
  /-- How many bytes are still to come. -/
  owed : Nat
  /-- The least value of the next byte. -/
  low : UInt8
  /-- The greatest value of the next byte. -/
  high : UInt8
  deriving DecidableEq, Repr

/-- A piece of a string of bytes. -/
inductive Piece
  /-- The bytes of one character. -/
  | character (bytes : Bytes)
  /-- Bytes that no character can contain, the next byte being known. -/
  | malformed (count : Nat)
  /-- The start of a character at the end of all bytes. -/
  | cutShort (count : Nat)
  deriving DecidableEq, Repr

/-- What a leading byte above ASCII asks for: the number of bytes to come and the range of the
first of them; nothing if no character starts with it. The narrower ranges keep out characters
written longer than needed, surrogates, and numbers past the last code point. -/
def tailOf (lead : UInt8) : Option (Nat × UInt8 × UInt8) :=
  if lead < 0xc2 then none
  else if lead < 0xe0 then some (1, 0x80, 0xbf)
  else if lead = 0xe0 then some (2, 0xa0, 0xbf)
  else if lead = 0xed then some (2, 0x80, 0x9f)
  else if lead < 0xf0 then some (2, 0x80, 0xbf)
  else if lead = 0xf0 then some (3, 0x90, 0xbf)
  else if lead < 0xf4 then some (3, 0x80, 0xbf)
  else if lead = 0xf4 then some (3, 0x80, 0x8f)
  else none

/-- What one byte does between characters: the pieces it completes, and the character it begins. -/
def start (byte : UInt8) : List Piece × Option Begun :=
  if byte < 0x80 then ([.character [byte]], none)
  else match tailOf byte with
    | none => ([.malformed 1], none)
    | some (owed, low, high) => ([], some ⟨[byte], owed, low, high⟩)

/-- What one byte does anywhere. A byte that the character begun cannot take ends it as a
malformed stretch and starts afresh. -/
def step : Option Begun → UInt8 → List Piece × Option Begun
  | none, byte => start byte
  | some b, byte =>
    if b.low ≤ byte ∧ byte ≤ b.high then
      if b.owed ≤ 1 then ([.character (byte :: b.read).reverse], none)
      else ([], some ⟨byte :: b.read, b.owed - 1, 0x80, 0xbf⟩)
    else
      let (pieces, next) := start byte
      (.malformed b.read.length :: pieces, next)

/-- The pieces of some bytes behind a character begun. -/
def piecesFrom : Option Begun → Bytes → List Piece
  | none, [] => []
  | some b, [] => [.cutShort b.read.length]
  | begun, byte :: rest =>
    let (pieces, next) := step begun byte
    pieces ++ piecesFrom next rest

/-- The pieces of a string of bytes. -/
def pieces (bytes : Bytes) : List Piece :=
  piecesFrom none bytes

/-- The text of bytes that are UTF-8. -/
def text? (bytes : Bytes) : Option String :=
  String.fromUTF8? ⟨bytes.toArray⟩

/-- The text of a piece, a replacement character for each stretch that is none. -/
def Piece.text : Piece → String
  | character bytes => (text? bytes).getD "\ufffd"
  | malformed _ | cutShort _ => "\ufffd"

/-- The text of any bytes. -/
def lossyText (bytes : Bytes) : String :=
  (text? bytes).getD (String.join ((pieces bytes).map Piece.text))

/-- Why bytes are not UTF-8. -/
inductive Fault
  /-- A stretch of so many bytes behind so many good ones fits no character. -/
  | malformed (count offset : Nat)
  /-- The bytes end within the character that starts behind so many good ones. -/
  | cutShort (offset : Nat)
  deriving DecidableEq, Repr

/-- The wording of a fault. -/
def Fault.message : Fault → String
  | malformed count offset =>
    "invalid utf-8 sequence of " ++ toString count ++ " bytes from index " ++ toString offset
  | cutShort offset => "incomplete utf-8 byte sequence from index " ++ toString offset

/-- The first fault among some pieces behind `offset` bytes. -/
def firstFault? (offset : Nat) : List Piece → Option Fault
  | [] => none
  | .character bytes :: rest => firstFault? (offset + bytes.length) rest
  | .malformed count :: _ => some (.malformed count offset)
  | .cutShort _ :: _ => some (.cutShort offset)

/-- The text of some bytes, or their first fault. -/
def decode (bytes : Bytes) : Except Fault String :=
  match text? bytes with
  | some text => .ok text
  | none => .error ((firstFault? 0 (pieces bytes)).getD (.cutShort bytes.length))

end TieredStore.Utf8
