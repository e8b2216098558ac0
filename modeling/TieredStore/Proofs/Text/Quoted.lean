import TieredStore.Text.Quoted

/-!
# Quoted text read back

What a character is written as between quotes can be cut off what follows it and read back
(`readChar_escape`): an escape starts with a backslash, which no other character is written as, and
its next letter says how far it goes, a closing brace where it has braces. So two texts in quotes
are the same only if the texts are (`quoteChars_inj`), whatever the characters without a shape are.

No character without a shape stands between quotes (`shaped_quoteChars`); its escape stands there,
in characters that print. The control characters have no shape, so nothing between quotes breaks the
line (`oneLine_quoteChars`).
-/

namespace TieredStore.Text

/-! ## Hexadecimal digits -/

/-- The value of a hexadecimal digit in lower case. -/
def hexDigit (c : Char) : Nat :=
  if c.isDigit then c.toNat - '0'.toNat else c.toNat - 'a'.toNat + 10

/-- The number that hexadecimal digits show. -/
def hexNumber (digits : List Char) : Nat :=
  digits.foldl (fun value c => 16 * value + hexDigit c) 0

/-- A digit shows its value. -/
theorem hexDigit_digitChar : ∀ n < 16, hexDigit (Nat.digitChar n) = n := by decide

/-- One more digit counts for itself, and the others for sixteen times as much. -/
theorem hexNumber_concat (digits : List Char) (c : Char) :
    hexNumber (digits ++ [c]) = 16 * hexNumber digits + hexDigit c := by
  simp only [hexNumber, List.foldl_append, List.foldl_cons, List.foldl_nil]

/-- Digits show the number they were made of. The induction is on the number, digit by digit from
the last. -/
theorem hexNumber_toDigits (n : Nat) : hexNumber (Nat.toDigits 16 n) = n := by
  induction n using Nat.strongRecOn with
  | ind n ih =>
    rcases Nat.lt_or_ge n 16 with hn | hn
    · rw [Nat.toDigits_of_lt_base hn, ← List.nil_append [_], hexNumber_concat]
      exact (Nat.zero_add _).trans (hexDigit_digitChar n hn)
    · rw [Nat.toDigits_of_base_le (by decide) hn, hexNumber_concat, ih (n / 16) (by omega),
        hexDigit_digitChar _ (Nat.mod_lt n (by decide)), Nat.div_add_mod]

/-- Every digit of a number is one of the sixteen. -/
theorem exists_of_mem_toDigits {c : Char} (n : Nat) (h : c ∈ Nat.toDigits 16 n) :
    ∃ d < 16, c = Nat.digitChar d := by
  induction n using Nat.strongRecOn with
  | ind n ih =>
    rcases Nat.lt_or_ge n 16 with hn | hn
    · rw [Nat.toDigits_of_lt_base hn, List.mem_singleton] at h
      exact ⟨n, hn, h⟩
    · rw [Nat.toDigits_of_base_le (by decide) hn, List.mem_append, List.mem_singleton] at h
      rcases h with h | h
      · exact ih (n / 16) (by omega) h
      · exact ⟨n % 16, Nat.mod_lt n (by decide), h⟩

/-! ## Escapes -/

/-- The letters behind a backslash, and what they stand for. -/
def lettered : List (Char × Char) :=
  [('0', '\x00'), ('t', '\t'), ('r', '\r'), ('n', '\n'), ('"', '"'), ('\\', '\\')]

/-- The character that an escape stands for, read behind the backslash, and what follows. -/
def readEscape : List Char → Option (Char × List Char)
  | [] => none
  | letter :: rest =>
    if letter = 'u' then
      let code := rest.drop 1
      some (Char.ofNat (hexNumber (code.takeWhile (· ≠ '\x7d'))),
        (code.dropWhile (· ≠ '\x7d')).drop 1)
    else (lettered.lookup letter).map fun c => (c, rest)

/-- The first character of a text between quotes, and what follows. -/
def readChar : List Char → Option (Char × List Char)
  | [] => none
  | c :: rest => if c = '\\' then readEscape rest else some (c, rest)

/-- No digit closes the braces that it stands in. -/
theorem brace_notMem_toDigits (n : Nat) : '\x7d' ∉ Nat.toDigits 16 n := by
  intro h
  obtain ⟨d, hd, heq⟩ := exists_of_mem_toDigits n h
  have hnone : ∀ d < 16, '\x7d' ≠ Nat.digitChar d := by decide
  exact hnone d hd heq

/-- A code is read back up to its closing brace. -/
theorem readChar_escapeCode (c : Char) (rest : List Char) :
    readChar (escapeCode c ++ rest) = some (c, rest) := by
  let digits := Nat.toDigits 16 c.toNat
  have hdigits : ∀ d ∈ digits, decide (d ≠ '\x7d') = true := by
    intro d hd
    refine decide_eq_true fun heq => brace_notMem_toDigits c.toNat ?_
    exact heq ▸ hd
  have htake : (digits ++ '\x7d' :: rest).takeWhile (· ≠ '\x7d') = digits := by
    rw [List.takeWhile_append_of_pos hdigits]
    simp
  have hdrop : (digits ++ '\x7d' :: rest).dropWhile (· ≠ '\x7d') = '\x7d' :: rest := by
    rw [List.dropWhile_append_of_pos hdigits]
    simp
  have htext : escapeCode c ++ rest = '\\' :: 'u' :: '\x7b' :: (digits ++ '\x7d' :: rest) := by
    simp [escapeCode, digits]
  rw [htext, readChar, if_pos rfl, readEscape, if_pos rfl]
  dsimp only
  rw [List.drop_one, List.tail_cons, htake, hdrop, hexNumber_toDigits, Char.ofNat_toNat]
  rfl

/-- What is written for a character is read back as that character, whatever follows. -/
theorem readChar_escape (c : Char) (rest : List Char) :
    readChar (escape c ++ rest) = some (c, rest) := by
  unfold escape
  split
  case h_7 _ _ _ _ _ _ hne =>
    split
    · exact readChar_escapeCode c rest
    · rw [List.singleton_append, readChar, if_neg hne]
  all_goals rfl

/-- Every character is written, or nothing could be read back. -/
theorem escape_ne_nil (c : Char) : escape c ≠ [] := by
  intro h
  have hread := readChar_escape c []
  rw [h] at hread
  cases hread

/-- What is written can be taken apart in one way only. The induction is on the first text. -/
theorem flatMap_escape_inj {a b : List Char} (h : a.flatMap escape = b.flatMap escape) : a = b := by
  induction a generalizing b with
  | nil =>
    cases b with
    | nil => rfl
    | cons c rest => exact absurd (List.append_eq_nil_iff.mp h.symm).1 (escape_ne_nil c)
  | cons c rest ih =>
    cases b with
    | nil => exact absurd (List.append_eq_nil_iff.mp h).1 (escape_ne_nil c)
    | cons d others =>
      have hread := congrArg readChar h
      rw [List.flatMap_cons, List.flatMap_cons, readChar_escape, readChar_escape] at hread
      obtain ⟨rfl, hrest⟩ := Prod.mk.inj (Option.some.inj hread)
      rw [ih hrest]

/-- Different texts look different in quotes. -/
theorem quoteChars_inj {a b : List Char} : quoteChars a = quoteChars b ↔ a = b := by
  constructor
  · intro h
    exact flatMap_escape_inj (List.append_cancel_right (List.cons.inj h).2)
  · rintro rfl
    rfl

theorem toList_quote (text : String) : (quote text).toList = quoteChars text.toList := by
  rw [quote, String.toList_ofList]

theorem quote_inj {a b : String} : quote a = quote b ↔ a = b := by
  rw [← String.toList_inj, toList_quote, toList_quote, quoteChars_inj, String.toList_inj]

/-! ## Characters without a shape -/

/-- The control characters are in the table. -/
theorem isShapeless_of_control {c : Char}
    (control : c.toNat < 0x20 ∨ 0x7f ≤ c.toNat ∧ c.toNat < 0xa0) : isShapeless c = true := by
  have hprinting : ¬(0x20 ≤ c.toNat ∧ c.toNat < 0x7f) := by omega
  rw [isShapeless, if_neg hprinting, List.any_eq_true]
  rcases control with hlow | ⟨hfirst, hlast⟩
  · refine ⟨(0x0, 0x1f), .head _, ?_⟩
    simp only [Nat.zero_le, decide_true, Bool.true_and, decide_eq_true_eq]
    omega
  · refine ⟨(0x7f, 0xa0), .tail _ (.head _), ?_⟩
    simp only [Bool.and_eq_true, decide_eq_true_eq]
    omega

/-- What prints in ASCII has a shape. -/
theorem isShapeless_of_printing {c : Char} (least : 0x20 ≤ c.toNat) (greatest : c.toNat < 0x7f) :
    isShapeless c = false := by
  rw [isShapeless, if_pos ⟨least, greatest⟩]

/-- No character without a shape. -/
def Shaped (text : List Char) : Prop := ∀ c ∈ text, isShapeless c = false

instance (text : List Char) : Decidable (Shaped text) :=
  List.decidableBAll (fun c => isShapeless c = false) text

theorem shaped_append {a b : List Char} : Shaped (a ++ b) ↔ Shaped a ∧ Shaped b :=
  List.forall_mem_append

/-- A code is written in digits, letters and punctuation. -/
theorem shaped_escapeCode (c : Char) : Shaped (escapeCode c) := by
  have hdigit : ∀ d < 16, isShapeless (Nat.digitChar d) = false := by decide
  rw [escapeCode, shaped_append, shaped_append]
  refine ⟨⟨by decide, fun d hd => ?_⟩, by decide⟩
  obtain ⟨n, hn, rfl⟩ := exists_of_mem_toDigits c.toNat hd
  exact hdigit n hn

/-- A character is written in characters that have a shape, itself only if it has one. -/
theorem shaped_escape (c : Char) : Shaped (escape c) := by
  unfold escape
  split
  case h_7 =>
    split
    · exact shaped_escapeCode c
    · next hshaped =>
      intro d hd
      rw [List.mem_singleton.mp hd]
      exact Bool.eq_false_iff.mpr hshaped
  all_goals decide

/-- A text in quotes has no character without a shape. -/
theorem shaped_quoteChars (text : List Char) : Shaped (quoteChars text) := by
  have hquote : isShapeless '"' = false := by decide
  intro c hc
  rw [quoteChars, List.mem_append, List.mem_cons] at hc
  rcases hc with (rfl | hc) | hc
  · exact hquote
  · obtain ⟨d, _, hd⟩ := List.mem_flatMap.mp hc
    exact shaped_escape d c hd
  · rw [List.mem_singleton.mp hc]
    exact hquote

/-- The zero width space, which no eye sees, is written by its code. -/
example : quoteChars ['a', '\u200b'] = "\"a\\u\x7b200b\x7d\"".toList := by decide +kernel

/-! ## One line -/

/-- No character that ends a line. -/
def OneLine (text : List Char) : Prop := ∀ c ∈ text, c ≠ '\n' ∧ c ≠ '\r'

instance (text : List Char) : Decidable (OneLine text) :=
  List.decidableBAll (fun c => c ≠ '\n' ∧ c ≠ '\r') text

theorem oneLine_append {a b : List Char} : OneLine (a ++ b) ↔ OneLine a ∧ OneLine b :=
  List.forall_mem_append

/-- A number is shown on one line. -/
theorem oneLine_toDigits (n : Nat) : OneLine (Nat.toDigits 16 n) := by
  intro c hc
  obtain ⟨d, hd, rfl⟩ := exists_of_mem_toDigits n hc
  have hdigit : ∀ d < 16, Nat.digitChar d ≠ '\n' ∧ Nat.digitChar d ≠ '\r' := by decide
  exact hdigit d hd

/-- Between quotes a text stays on its line, as what ends a line has no shape. -/
theorem oneLine_quoteChars (text : List Char) : OneLine (quoteChars text) := by
  intro c hc
  have hshaped := shaped_quoteChars text c hc
  constructor <;>
    rintro rfl <;>
    cases hshaped.symm.trans (isShapeless_of_control (.inl (by decide)))

end TieredStore.Text
