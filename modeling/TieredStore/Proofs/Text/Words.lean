import Mathlib.Data.List.Basic
import TieredStore.Text.Blank

/-!
# Words and the blanks around them

How a text is put together from words and blanks, and that trimming and cutting take it apart in
the same way: between blanks stands what is left by `trim` (`trim_eq`, `exists_trim`), and a text is
either one word or a word with a blank behind it, where `splitAtBlank?` cuts (`solid_or_cut`).
-/

namespace TieredStore.Text

/-- Nothing but blanks. -/
def Blank (l : List Char) : Prop := ∀ c ∈ l, isBlank c = true

/-- No blanks. -/
def Solid (l : List Char) : Prop := ∀ c ∈ l, isBlank c = false

/-- No blank at either end. -/
structure Trimmed (l : List Char) : Prop where
  first : ∀ c, l.head? = some c → isBlank c = false
  last : ∀ c, l.getLast? = some c → isBlank c = false

variable {l lead core trail word rest : List Char} {b : Char}

theorem blank_nil : Blank [] := fun _ hc => absurd hc List.not_mem_nil

/-- A blank before blanks leaves all blank. -/
theorem Blank.cons (hb : isBlank b = true) (h : Blank l) : Blank (b :: l) := by
  intro c hc
  rcases List.mem_cons.mp hc with rfl | hc
  · exact hb
  · exact h c hc

theorem Blank.append (h : Blank l) (h' : Blank rest) : Blank (l ++ rest) := by
  intro c hc
  rcases List.mem_append.mp hc with hc | hc
  · exact h c hc
  · exact h' c hc

theorem Blank.reverse (h : Blank l) : Blank l.reverse :=
  fun c hc => h c (List.mem_reverse.mp hc)

/-- What is taken off the front as blank is blank. -/
theorem blank_takeWhile (l : List Char) : Blank (l.takeWhile isBlank) :=
  fun c hc => List.all_eq_true.mp List.all_takeWhile c hc

theorem trimmed_nil : Trimmed [] where
  first c h := by cases h
  last c h := by cases h

/-- Having no blanks at the ends does not depend on which end is first. -/
theorem Trimmed.reverse (h : Trimmed l) : Trimmed l.reverse where
  first c hc := h.last c (List.head?_reverse ▸ hc)
  last c hc := h.first c (List.getLast?_reverse ▸ hc)

/-- A word has no blanks at all, so it has none at its ends. -/
theorem Solid.trimmed (h : Solid l) : Trimmed l where
  first c hc := h c (List.mem_of_head? hc)
  last c hc := h c (List.mem_of_getLast? hc)

/-- A word, and something trimmed at the end. -/
theorem trimmed_append (word_solid : Solid word) (word_nonempty : word ≠ []) (gap : List Char)
    (rest_trimmed : Trimmed rest) (rest_nonempty : rest ≠ []) : Trimmed (word ++ gap ++ rest) where
  first c hc := by
    rw [List.append_assoc, List.head?_append_of_ne_nil _ word_nonempty] at hc
    exact word_solid.trimmed.first c hc
  last c hc := by
    rw [List.getLast?_append_of_ne_nil _ rest_nonempty] at hc
    exact rest_trimmed.last c hc

/-- Blanks at the front of something trimmed are none. -/
theorem Trimmed.lead_eq_nil (h : Trimmed (lead ++ l)) (blank : Blank lead) : lead = [] := by
  cases lead with
  | nil => rfl
  | cons c lead =>
    have hblank := blank c List.mem_cons_self
    rw [h.first c rfl] at hblank
    cases hblank

/-- Neither are blanks at its end. -/
theorem Trimmed.trail_eq_nil (h : Trimmed (l ++ trail)) (blank : Blank trail) : trail = [] := by
  have hreverse := h.reverse
  rw [List.reverse_append] at hreverse
  exact List.reverse_eq_nil_iff.mp (hreverse.lead_eq_nil blank.reverse)

/-! ## Trimming -/

/-- Dropping blanks from the front stops at the first character that is none. -/
theorem dropWhile_lead (lead_blank : Blank lead)
    (first : ∀ c, l.head? = some c → isBlank c = false) :
    (lead ++ l).dropWhile isBlank = l := by
  rw [List.dropWhile_append_of_pos lead_blank]
  cases l with
  | nil => rfl
  | cons c l => rw [List.dropWhile_cons_of_neg (Bool.eq_false_iff.mp (first c rfl))]

/-- What stands between blanks is left. -/
theorem trim_eq (lead_blank : Blank lead) (core_trimmed : Trimmed core)
    (trail_blank : Blank trail) : trim (lead ++ core ++ trail) = core := by
  have hfront : (lead ++ core ++ trail).dropWhile isBlank = (core ++ trail).dropWhile isBlank := by
    rw [List.append_assoc]
    exact List.dropWhile_append_of_pos lead_blank
  unfold trim
  rw [hfront]
  cases hcore : core with
  | nil =>
    -- then all is blank
    have hall : ([] ++ trail).dropWhile isBlank = [] := by
      have hdrop := dropWhile_lead (l := []) trail_blank (fun c hc => by cases hc)
      rw [List.append_nil] at hdrop
      exact hdrop
    rw [hall]
    rfl
  | cons c rest =>
    have hstays : (c :: rest ++ trail).dropWhile isBlank = c :: rest ++ trail :=
      List.dropWhile_cons_of_neg (Bool.eq_false_iff.mp (core_trimmed.first c (hcore ▸ rfl)))
    rw [hstays, ← hcore, List.reverse_append,
      dropWhile_lead trail_blank.reverse core_trimmed.reverse.first, List.reverse_reverse]

/-- Trimming takes blanks off the two ends, and all of them. -/
theorem exists_trim (l : List Char) :
    Trimmed (trim l) ∧ ∃ lead trail, Blank lead ∧ Blank trail ∧ l = lead ++ trim l ++ trail := by
  have hfirst : ∀ {m : List Char} {c : Char}, (m.dropWhile isBlank).head? = some c →
      isBlank c = false := by
    intro m c hc
    have hstop := List.head?_dropWhile_not isBlank m
    rw [hc] at hstop
    exact hstop
  obtain ⟨m, hm⟩ : ∃ m, m = l.dropWhile isBlank := ⟨_, rfl⟩
  have hcut : m = trim l ++ (m.reverse.takeWhile isBlank).reverse := by
    have hreverse := @List.takeWhile_append_dropWhile _ isBlank m.reverse
    rw [trim, ← hm, ← List.reverse_append, hreverse, List.reverse_reverse]
  refine ⟨⟨?_, ?_⟩, l.takeWhile isBlank, (m.reverse.takeWhile isBlank).reverse, blank_takeWhile l,
    (blank_takeWhile _).reverse, ?_⟩
  · intro c hc
    -- what is left begins where the blanks at the front end
    have hhead : m.head? = some c := by
      rw [hcut, List.head?_append, hc, Option.some_or]
    rw [hm] at hhead
    exact hfirst hhead
  · intro c hc
    rw [trim, List.getLast?_reverse] at hc
    exact hfirst hc
  · rw [List.append_assoc, ← hcut, hm, List.takeWhile_append_dropWhile]

/-! ## Cutting -/

/-- A word alone is not split. -/
theorem splitAtBlank?_of_solid (h : Solid l) : splitAtBlank? l = none := by
  have hall : l.dropWhile (!isBlank ·) = [] := by
    rw [← List.append_nil l, List.dropWhile_append_of_pos]
    · rfl
    · intro c hc
      rw [h c hc]
      rfl
  rw [splitAtBlank?, hall]

/-- The split is at the first blank, which itself belongs to neither part. -/
theorem splitAtBlank?_of_blank (solid : Solid word) (hb : isBlank b = true) (rest : List Char) :
    splitAtBlank? (word ++ b :: rest) = some (word, rest) := by
  have hinside : ∀ c ∈ word, (!isBlank c) = true := by
    intro c hc
    rw [solid c hc]
    rfl
  have hstop : ¬(!isBlank b) = true := by
    rw [hb]
    exact Bool.false_ne_true
  rw [splitAtBlank?, List.dropWhile_append_of_pos hinside, List.takeWhile_append_of_pos hinside,
    List.dropWhile_cons, if_neg hstop, List.takeWhile_cons, if_neg hstop, List.append_nil]

/-- A text has no blank, or it has a first one. -/
theorem solid_or_cut (l : List Char) :
    Solid l ∨ ∃ word b rest, Solid word ∧ isBlank b = true ∧ l = word ++ b :: rest := by
  induction l with
  | nil => exact .inl fun c hc => absurd hc List.not_mem_nil
  | cons c l ih =>
    cases hc : isBlank c with
    | true => exact .inr ⟨[], c, l, fun d hd => absurd hd List.not_mem_nil, hc, rfl⟩
    | false =>
      have hcons : ∀ {m}, Solid m → Solid (c :: m) := by
        intro m hm d hd
        rcases List.mem_cons.mp hd with rfl | hd
        · exact hc
        · exact hm d hd
      rcases ih with hsolid | ⟨word, b, rest, hword, hb, rfl⟩
      · exact .inl (hcons hsolid)
      · exact .inr ⟨c :: word, b, rest, hcons hword, hb, rfl⟩

end TieredStore.Text
