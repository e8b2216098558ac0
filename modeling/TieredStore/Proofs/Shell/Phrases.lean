import TieredStore.Proofs.Text.Words
import TieredStore.Shell.Command

/-!
# How commands are phrased

A line spells a word and an argument: blanks may stand before the word, between the two and behind
the argument, and none of them belongs to either (`Command.Spells`). There is only one way to read a
line so, and it is the one that the shell finds (`Command.split_eq_iff`).

`Phrase` lists the lines that ask for the stored pairs, each with its command: the word in letters
of any case, for a write an argument that is a word, a gap and a text, for the commands on a key any
argument, and for the listing any or none. A line without the argument that its word needs is
answered with how the word is used.

**The law** (`Phrase.iff_ofLine`): these are just the lines that the shell takes so. What ends a
session is told in the same way (`Ends`, `ends_iff`), and a line may be phrased in another way
(`Rephrased`).
-/

namespace TieredStore.Shell

open Text

namespace Command

/-! ## A word and an argument -/

/-- A line shows a word and an argument, with blanks around them that do not count. -/
structure Spells (line word argument : List Char) : Prop where
  word_solid : Solid word
  argument_trimmed : Trimmed argument
  /-- Only behind a word can an argument stand. -/
  word_first : argument ≠ [] → word ≠ []
  shown : ∃ lead gap trail, line = lead ++ word ++ gap ++ argument ++ trail ∧
    Blank lead ∧ Blank gap ∧ Blank trail ∧ (argument ≠ [] → gap ≠ [])

/-- A line of one word has no argument. -/
theorem split_of_solid {line : String} (solid : Solid (trim line.toList)) :
    split line = (trim line.toList, []) := by
  unfold split
  dsimp only
  rw [splitAtBlank?_of_solid solid]

/-- The word ends at the first blank, and the argument is what follows it without the blanks around.
-/
theorem split_of_cut {line : String} {word rest : List Char} {b : Char} (solid : Solid word)
    (hb : isBlank b = true) (cut : trim line.toList = word ++ b :: rest) :
    split line = (word, trim rest) := by
  unfold split
  rw [cut]
  dsimp only
  rw [splitAtBlank?_of_blank solid hb]

variable {line word argument : List Char}

/-- A line is read as what it spells. -/
theorem split_of_spells {line : String} (h : Spells line.toList word argument) :
    split line = (word, argument) := by
  obtain ⟨hsolid, htrimmed, hfirst, lead, gap, trail, hline, hlead, hgap, htrail, hapart⟩ := h
  by_cases hargument : argument = []
  · subst hargument
    have htrim : trim line.toList = word := by
      rw [hline, List.append_nil, List.append_assoc _ gap]
      exact trim_eq hlead hsolid.trimmed (hgap.append htrail)
    rw [split_of_solid (htrim ▸ hsolid), htrim]
  · obtain ⟨b, rest, rfl⟩ := List.exists_cons_of_ne_nil (hapart hargument)
    have hcore : Trimmed (word ++ b :: rest ++ argument) :=
      trimmed_append hsolid (hfirst hargument) _ htrimmed hargument
    have htrim : trim line.toList = word ++ b :: (rest ++ argument) := by
      rw [hline, List.append_assoc lead, List.append_assoc lead, trim_eq hlead hcore htrail,
        List.append_assoc, List.cons_append]
    have hrest : trim (rest ++ argument) = argument := by
      have hblank : Blank rest := fun c hc => hgap c (List.mem_cons_of_mem b hc)
      rw [← List.append_nil (rest ++ argument)]
      exact trim_eq hblank htrimmed blank_nil
    rw [split_of_cut hsolid (hgap b List.mem_cons_self) htrim, hrest]

/-- Every line spells what it is read as. -/
theorem spells_split (line : String) :
    Spells line.toList (split line).1 (split line).2 := by
  obtain ⟨htrimmed, lead, trail, hlead, htrail, hline⟩ := exists_trim line.toList
  rcases solid_or_cut (trim line.toList) with hsolid | ⟨word, b, rest, hword, hb, hcut⟩
  · rw [split_of_solid hsolid]
    refine ⟨hsolid, trimmed_nil, fun h => absurd rfl h, lead, [], trail, ?_, hlead, blank_nil,
      htrail, fun h => absurd rfl h⟩
    rw [List.append_nil, List.append_nil]
    exact hline
  · obtain ⟨hargument, lead', trail', hlead', htrail', hrest⟩ := exists_trim rest
    rw [split_of_cut hword hb hcut]
    refine ⟨hword, hargument, ?_, lead, b :: lead', trail' ++ trail, ?_, hlead, hlead'.cons hb,
      htrail'.append htrail, fun _ => List.cons_ne_nil b lead'⟩
    · -- a trimmed line does not begin with a blank
      rintro - rfl
      have hblank := htrimmed.first b (by rw [hcut]; rfl)
      rw [hb] at hblank
      cases hblank
    · rw [hline, hcut]
      conv_lhs => rw [hrest]
      simp only [List.append_assoc, List.cons_append]

/-- Splitting a line is finding the word and the argument that it spells. -/
theorem split_eq_iff {line : String} :
    split line = (word, argument) ↔ Spells line.toList word argument := by
  constructor
  · intro h
    have hspells := spells_split line
    rw [h] at hspells
    exact hspells
  · exact split_of_spells

end Command

/-! ## Commands on the stored pairs -/

/-- A word is a verb, in letters of any case. -/
def Names (word : List Char) (verb : String) : Prop :=
  word.map Char.toUpper = verb.toList

/-- The verbs that take a key, each with its command. -/
def keyed : List (String × (String → Command)) :=
  [("GET", .get), ("HAS", .has), ("DEL", .delete)]

/-- The lines that ask for the stored pairs, and what they ask for. -/
inductive Phrase (line : String) : Command → Prop
  | put {word key gap value : List Char} (verb : Names word "PUT")
      (spells : Command.Spells line.toList word (key ++ gap ++ value))
      (key_solid : Solid key) (key_nonempty : key ≠ []) (gap_blank : Blank gap)
      (gap_nonempty : gap ≠ []) (value_trimmed : Trimmed value) (value_nonempty : value ≠ []) :
      Phrase line (.put (String.ofList key) (String.ofList value))
  | putMisused {word argument : List Char} (verb : Names word "PUT")
      (spells : Command.Spells line.toList word argument) (argument_solid : Solid argument) :
      Phrase line (.misused "PUT <key> <value>")
  | onKey {word argument : List Char} {verb : String} {command : String → Command}
      (known : (verb, command) ∈ keyed) (named : Names word verb)
      (spells : Command.Spells line.toList word argument) (argument_nonempty : argument ≠ []) :
      Phrase line (command (String.ofList argument))
  | keyMisused {word : List Char} {verb : String} {command : String → Command}
      (known : (verb, command) ∈ keyed) (named : Names word verb)
      (spells : Command.Spells line.toList word []) : Phrase line (.misused (verb ++ " <key>"))
  | keys {word argument : List Char} (verb : Names word "KEYS")
      (spells : Command.Spells line.toList word argument) : Phrase line .keys

/-- Whether a command asks for the stored pairs, or would with an argument. -/
def Command.onPairs : Command → Bool
  | put .. | get _ | has _ | delete _ | keys => true
  | misused usage => usage ∈ ["PUT <key> <value>", "GET <key>", "HAS <key>", "DEL <key>"]
  | nothing | quit | seen _ | hash .. | stats | unknown _ => false

/-- A word names a verb in any case of its letters. -/
theorem names_iff {word : List Char} {verb : String} :
    Names word verb ↔ String.ofList (word.map Char.toUpper) = verb := by
  unfold Names
  constructor
  · intro h
    rw [h, String.ofList_toList]
  · rintro rfl
    rw [String.toList_ofList]

/-- The commands that take a key and nothing else. -/
theorem mem_keyed {verb : String} {command : String → Command} :
    (verb, command) ∈ keyed ↔
      verb = "GET" ∧ command = .get ∨ verb = "HAS" ∧ command = .has ∨
        verb = "DEL" ∧ command = .delete := by
  simp [keyed]

variable {line : String} {word argument : List Char}

/-- An argument of a write is one word, or it is cut behind its first word. -/
theorem phrase_onPair (named : Names word "PUT")
    (spells : Command.Spells line.toList word argument) :
    Phrase line (Command.onPair "PUT <key> <value>" .put argument) := by
  rcases solid_or_cut argument with hsolid | ⟨key, b, rest, hkey, hb, rfl⟩
  · rw [Command.onPair, splitAtBlank?_of_solid hsolid]
    exact .putMisused named spells hsolid
  · rw [Command.onPair, splitAtBlank?_of_blank hkey hb]
    obtain ⟨htrimmed, lead, trail, hlead, htrail, hrest⟩ := exists_trim rest
    have hargument := spells.argument_trimmed
    have hnonempty : key ≠ [] := by
      rintro rfl
      have hblank := hargument.first b rfl
      rw [hb] at hblank
      cases hblank
    -- an argument does not end with a blank, so behind the key there is something else
    have hvalue : trim rest ≠ [] := by
      intro hnil
      rw [hnil, List.append_nil] at hrest
      rw [hrest] at hargument
      cases hargument.trail_eq_nil ((hlead.append htrail).cons hb)
    have htrail_nil : trail = [] := by
      rw [hrest, ← List.cons_append, ← List.append_assoc] at hargument
      exact hargument.trail_eq_nil htrail
    rw [htrail_nil, List.append_nil] at hrest
    have hgap : Blank (b :: lead) := hlead.cons hb
    refine .put named ?_ hkey hnonempty hgap (List.cons_ne_nil b lead) htrimmed hvalue
    rw [List.append_assoc, List.cons_append, ← hrest]
    exact spells

theorem phrase_onKey {verb : String} {command : String → Command} (known : (verb, command) ∈ keyed)
    (named : Names word verb) (spells : Command.Spells line.toList word argument) :
    Phrase line (Command.onKey verb command argument) := by
  cases argument with
  | nil => exact .keyMisused known named spells
  | cons c rest => exact .onKey known named spells (List.cons_ne_nil c rest)

/-- A line that names the verb for writing is read as one, whatever its argument. -/
theorem ofLine_of_put (named : Names word "PUT")
    (spells : Command.Spells line.toList word argument) :
    Command.ofLine line = Command.onPair "PUT <key> <value>" .put argument := by
  rw [Command.ofLine, Command.split_of_spells spells]
  dsimp only
  rw [names_iff.mp named]
  rfl

/-- So it is with each verb that takes a key. -/
theorem ofLine_of_keyed {verb : String} {command : String → Command}
    (known : (verb, command) ∈ keyed) (named : Names word verb)
    (spells : Command.Spells line.toList word argument) :
    Command.ofLine line = Command.onKey verb command argument := by
  rw [Command.ofLine, Command.split_of_spells spells]
  dsimp only
  rw [names_iff.mp named]
  rcases mem_keyed.mp known with ⟨rfl, rfl⟩ | ⟨rfl, rfl⟩ | ⟨rfl, rfl⟩ <;> rfl

/-- What is a phrase of a command is read as that command. -/
theorem ofLine_of_phrase {command : Command} (h : Phrase line command) :
    Command.ofLine line = command := by
  cases h with
  | @put word key gap value named spells hkey hnonempty hgap hgap_nonempty hvalue hvalue_nonempty =>
    obtain ⟨b, lead, rfl⟩ := List.exists_cons_of_ne_nil hgap_nonempty
    have hlead : Blank lead := fun c hc => hgap c (List.mem_cons_of_mem b hc)
    have htrim := trim_eq hlead hvalue blank_nil
    rw [List.append_nil] at htrim
    rw [ofLine_of_put named spells, Command.onPair, List.append_assoc, List.cons_append,
      splitAtBlank?_of_blank hkey (hgap b List.mem_cons_self)]
    dsimp only
    rw [htrim]
  | putMisused named spells hsolid =>
    rw [ofLine_of_put named spells, Command.onPair, splitAtBlank?_of_solid hsolid]
  | onKey known named spells hargument =>
    rw [ofLine_of_keyed known named spells, Command.onKey,
      if_neg (fun h => hargument (List.isEmpty_iff.mp h))]
  | keyMisused known named spells =>
    rw [ofLine_of_keyed known named spells]
    rfl
  | keys named spells =>
    rw [Command.ofLine, Command.split_of_spells spells]
    dsimp only
    rw [names_iff.mp named]
    rfl

/-- A phrase is about the pairs; other commands have no phrase. -/
theorem onPairs_of_phrase {command : Command} (h : Phrase line command) :
    command.onPairs = true := by
  cases h with
  | put | putMisused | keys => rfl
  | onKey known | keyMisused known =>
    rcases mem_keyed.mp known with ⟨rfl, rfl⟩ | ⟨rfl, rfl⟩ | ⟨rfl, rfl⟩ <;> rfl

/-- **The lines that ask for the stored pairs** are just those that are phrased so. -/
theorem Phrase.iff_ofLine {command : Command} :
    Phrase line command ↔ command.onPairs = true ∧ Command.ofLine line = command := by
  constructor
  · exact fun h => ⟨onPairs_of_phrase h, ofLine_of_phrase h⟩
  · rintro ⟨onPairs, rfl⟩
    have spells := Command.spells_split line
    unfold Command.ofLine at onPairs ⊢
    dsimp only at onPairs ⊢
    split at onPairs
    · cases onPairs
    · cases onPairs
    · cases onPairs
    · next hverb => exact phrase_onPair (names_iff.mpr hverb) spells
    · next hverb => exact phrase_onKey (by simp [keyed]) (names_iff.mpr hverb) spells
    · next hverb => exact phrase_onKey (by simp [keyed]) (names_iff.mpr hverb) spells
    · next hverb => exact phrase_onKey (by simp [keyed]) (names_iff.mpr hverb) spells
    · next hverb => exact .keys (names_iff.mpr hverb) spells
    · unfold Command.onKey at onPairs
      split at onPairs <;> cases onPairs
    · unfold Command.onPair at onPairs
      split at onPairs <;> cases onPairs
    · cases onPairs
    · cases onPairs

/-! ## The end of a session -/

/-- The line ends the session. -/
def Ends (line : String) : Prop :=
  ∃ word argument, (Names word "QUIT" ∨ Names word "EXIT") ∧
    Command.Spells line.toList word argument

/-- Apart from how a word is used, a command on a key is only what it is for the key. -/
theorem onKey_ne {target : Command} (used : ∀ usage, target ≠ .misused usage) {verb : String}
    {command : String → Command} (other : ∀ key, command key ≠ target) :
    Command.onKey verb command argument ≠ target := by
  unfold Command.onKey
  split
  · exact (used _).symm
  · exact other _

/-- Reading the argument of a write gives a write or a misuse, and nothing else. -/
theorem onPair_ne {target : Command} (used : ∀ usage, target ≠ .misused usage) {usage : String}
    {command : String → String → Command} (other : ∀ key value, command key value ≠ target) :
    Command.onPair usage command argument ≠ target := by
  unfold Command.onPair
  split
  · exact (used _).symm
  · exact other _ _

/-- A line ends the session just when it is read as the command to quit. -/
theorem ends_iff : Ends line ↔ Command.ofLine line = .quit := by
  constructor
  · rintro ⟨word, argument, named, spells⟩
    rw [Command.ofLine, Command.split_of_spells spells]
    dsimp only
    rcases named with named | named
    · rw [names_iff.mp named]
      rfl
    · rw [names_iff.mp named]
      rfl
  · intro h
    have hused : ∀ usage, Command.quit ≠ .misused usage := nofun
    refine ⟨_, _, ?_, Command.spells_split line⟩
    unfold Command.ofLine at h
    dsimp only at h
    split at h
    · cases h
    · next hverb => exact .inl (names_iff.mpr hverb)
    · next hverb => exact .inr (names_iff.mpr hverb)
    · exact absurd h (onPair_ne hused nofun)
    · exact absurd h (onKey_ne hused nofun)
    · exact absurd h (onKey_ne hused nofun)
    · exact absurd h (onKey_ne hused nofun)
    · cases h
    · exact absurd h (onKey_ne hused nofun)
    · exact absurd h (onPair_ne hused nofun)
    · cases h
    · cases h

/-- A line in place of another: it asks for the same of the stored pairs, or for nothing of them as
the other does, and it ends the session if the other does. -/
def Rephrased (line other : String) : Prop :=
  (∀ command, Phrase line command ↔ Phrase other command) ∧ (Ends line ↔ Ends other)

/-- Lines are rephrased of each other if they are read alike, or if neither is about the pairs and
both or neither end the session. -/
theorem rephrased_iff {other : String} :
    Rephrased line other ↔
      Command.ofLine line = Command.ofLine other ∨
        (Command.ofLine line).onPairs = false ∧ (Command.ofLine other).onPairs = false ∧
          (Command.ofLine line = .quit ↔ Command.ofLine other = .quit) := by
  unfold Rephrased
  simp only [Phrase.iff_ofLine, ends_iff]
  constructor
  · rintro ⟨hphrases, hends⟩
    cases hline : (Command.ofLine line).onPairs with
    | true => exact .inl ((hphrases _).mp ⟨hline, rfl⟩).2.symm
    | false =>
      cases hother : (Command.ofLine other).onPairs with
      | true => exact .inl ((hphrases _).mpr ⟨hother, rfl⟩).2
      | false => exact .inr ⟨rfl, rfl, hends⟩
  · rintro (hsame | ⟨hline, hother, hends⟩)
    · rw [hsame]
      exact ⟨fun _ => Iff.rfl, Iff.rfl⟩
    · refine ⟨fun command => ⟨?_, ?_⟩, hends⟩
      · rintro ⟨honPairs, rfl⟩
        rw [hline] at honPairs
        cases honPairs
      · rintro ⟨honPairs, rfl⟩
        rw [hother] at honPairs
        cases honPairs

instance (line other : String) : Decidable (Rephrased line other) :=
  decidable_of_iff _ rephrased_iff.symm

end TieredStore.Shell
