import TieredStore.Proofs.Shell.Dictionary
import TieredStore.Proofs.Text.Quoted

/-!
# Replies read back

What a session answers is written line by line, and the bytes of the output are cut into lines again
by who reads them. The answers about stored pairs come through this whole (`lines_asOutput`): they
have no character that ends a line, as a stored text is shown in quotes only (`Text.quote`), and no
byte of another character looks like the end of a line.

In a session that was reached from its start (`Session.Reached`), the stored bytes are texts, so
what is shown of them is not only nearly what they are.

**The law** (`replies_unambiguous`): from the reply to a look-up the value is known, and from a list
of the keys the keys, whatever the characters in them are; and what is stored never looks like an
error.
-/

namespace TieredStore

/-- The order by which pairs are stored is the lexicographic one. -/
theorem Bytes.compare_eq_lt {a b : Bytes} : compare a b = .lt ↔ a < b := by
  induction a generalizing b with
  | nil =>
    cases b with
    | nil => decide
    | cons => exact iff_of_true rfl (List.nil_lt_cons _ _)
  | cons x rest ih =>
    cases b with
    | nil => exact iff_of_false nofun (List.not_lt_nil _)
    | cons y others =>
      rw [List.compare_cons_cons, Ordering.then_eq_lt, List.cons_lt_cons_iff, Std.compare_eq_lt,
        Std.compare_eq_iff_eq, ih]

namespace Shell

open Text

/-! ## Lines written and read -/

/-- A line without a line feed in it ends at the one that follows it. -/
theorem linesFrom_append {line : Bytes} (unbroken : 0x0a ∉ line) (rest : Bytes) :
    ∀ unfinished, linesFrom unfinished (line ++ 0x0a :: rest) =
      endedLine (line.reverse ++ unfinished) :: linesFrom [] rest := by
  induction line with
  | nil =>
    intro unfinished
    rw [List.nil_append, linesFrom, if_pos rfl]
    rfl
  | cons byte line ih =>
    intro unfinished
    have hbyte : byte ≠ 0x0a := fun heq => unbroken (heq ▸ List.mem_cons_self)
    have hline : 0x0a ∉ line := fun hmem => unbroken (List.mem_cons_of_mem byte hmem)
    rw [List.cons_append, linesFrom, if_neg hbyte, ih hline, List.reverse_cons, List.append_assoc,
      List.singleton_append]

/-- A line that does not end in a carriage return is not shortened. -/
theorem endedLine_reverse {line : Bytes} (unreturned : 0x0d ∉ line) :
    endedLine line.reverse = line := by
  rw [endedLine, if_neg, List.reverse_reverse]
  intro hhead
  exact unreturned (List.mem_reverse.mp (List.mem_of_mem_head? hhead))

/-- What is written of an answer is its first line, a line feed, and what is written of the rest. -/
theorem ofString_asOutput_cons (line : String) (rest : List String) :
    Bytes.ofString (asOutput (line :: rest)) =
      Bytes.ofString line ++ 0x0a :: Bytes.ofString (asOutput rest) := by
  have hfeed : Bytes.ofString "\n" = [0x0a] := by decide +kernel
  rw [asOutput, List.map_cons, String.join_cons, Bytes.ofString_append, Bytes.ofString_append,
    hfeed, List.append_assoc]
  rfl

/-- Lines that are written are read as the same lines. -/
theorem lines_asOutput {answer : List String}
    (oneLine : ∀ line ∈ answer, OneLine line.toList) :
    lines (Bytes.ofString (asOutput answer)) = answer.map Bytes.ofString := by
  induction answer with
  | nil => decide +kernel
  | cons line rest ih =>
    obtain ⟨hline, hrest⟩ := List.forall_mem_cons.mp oneLine
    have hfeed : 0x0a ∉ Bytes.ofString line :=
      Bytes.notMem_ofString (by decide : '\n'.toNat < 0x80) fun h => (hline _ h).1 rfl
    have hreturn : 0x0d ∉ Bytes.ofString line :=
      Bytes.notMem_ofString (by decide : '\r'.toNat < 0x80) fun h => (hline _ h).2 rfl
    rw [ofString_asOutput_cons, lines, linesFrom_append hfeed, List.append_nil,
      endedLine_reverse hreturn, List.map_cons]
    exact congrArg _ (ih hrest)

/-- Since no line has a line feed in it, what is written tells the lines apart. -/
theorem asOutput_inj {answer other : List String} (ha : ∀ line ∈ answer, OneLine line.toList)
    (hb : ∀ line ∈ other, OneLine line.toList) :
    asOutput answer = asOutput other ↔ answer = other := by
  constructor
  · intro heq
    have hlines : answer.map Bytes.ofString = other.map Bytes.ofString := by
      rw [← lines_asOutput ha, heq, lines_asOutput hb]
    exact (List.map_inj_right fun _ _ => Bytes.ofString_inj.mp).mp hlines
  · exact congrArg asOutput

/-! ## What is shown of texts -/

/-- A quoted text is on one line, for a line break in it is escaped. -/
theorem oneLine_quote (text : String) : OneLine (quote text).toList := by
  rw [toList_quote]
  exact oneLine_quoteChars text.toList

/-- A number is on one line. -/
theorem oneLine_toString (n : Nat) : OneLine (toString n).toList := by
  intro c hc
  rw [Nat.toString_eq_ofList_toDigits, String.toList_ofList] at hc
  have hdigit := Nat.isDigit_of_mem_toDigits (by decide) (by decide) hc
  constructor <;> rintro rfl <;> exact absurd hdigit (by decide)

/-- The line for a text in its place on a list. -/
def entry (place : Nat) (text : String) : String :=
  toString place ++ ") " ++ quote text

/-- The lines for some texts, numbered from one. -/
def listing : List String → List String
  | [] => ["(empty)"]
  | texts => texts.zipIdx.map fun (text, i) => entry (i + 1) text

/-- Something to list is listed by places, counted from one. -/
theorem listing_of_ne_nil {texts : List String} (nonempty : texts ≠ []) :
    listing texts = texts.zipIdx.map fun (text, i) => entry (i + 1) text := by
  cases texts with
  | nil => exact absurd rfl nonempty
  | cons => rfl

/-- An entry is a number, a bracket and a quoted text, and each of them is on one line. -/
theorem oneLine_entry (place : Nat) (text : String) : OneLine (entry place text).toList := by
  rw [entry, String.toList_append, String.toList_append, oneLine_append, oneLine_append]
  exact ⟨⟨oneLine_toString place, by decide⟩, oneLine_quote text⟩

/-- Every line of a listing is one line, whatever the texts. -/
theorem oneLine_listing (texts : List String) : ∀ line ∈ listing texts, OneLine line.toList := by
  by_cases hnil : texts = []
  · rw [hnil]
    decide
  · rw [listing_of_ne_nil hnil, List.forall_mem_map]
    exact fun p _ => oneLine_entry (p.2 + 1) p.1

/-- At the same place, entries tell their texts apart. -/
theorem entry_inj {place : Nat} {a b : String} : entry place a = entry place b ↔ a = b := by
  rw [entry, entry, String.append_right_inj, quote_inj]

/-- No entry reads as the line that stands for an empty listing: an entry begins with a digit. -/
theorem entry_ne_empty (place : Nat) (text : String) : entry place text ≠ "(empty)" := by
  intro heq
  have hquote : '"' ∈ (entry place text).toList := by
    rw [entry, String.toList_append, toList_quote]
    exact List.mem_append_right _ List.mem_cons_self
  rw [heq] at hquote
  revert hquote
  decide

/-- Entries of equal lines are of equal texts, by induction on the texts from the first place on. -/
theorem entries_inj {a : List String} :
    ∀ {b : List String} {before : Nat},
      (a.zipIdx before).map (fun (text, i) => entry (i + 1) text) =
        (b.zipIdx before).map (fun (text, i) => entry (i + 1) text) → a = b := by
  induction a with
  | nil =>
    intro b before h
    cases b with
    | nil => rfl
    | cons => cases h
  | cons text rest ih =>
    intro b before h
    cases b with
    | nil => cases h
    | cons other others =>
      rw [List.zipIdx_cons, List.zipIdx_cons, List.map_cons, List.map_cons] at h
      obtain ⟨htext, hrest⟩ := List.cons.inj h
      rw [entry_inj.mp htext, ih hrest]

/-- A listing tells the texts apart, their order and their number included. -/
theorem listing_inj {a b : List String} : listing a = listing b ↔ a = b := by
  constructor
  · intro h
    cases a with
    | nil =>
      cases b with
      | nil => rfl
      | cons text => exact absurd (List.cons.inj h).1.symm (entry_ne_empty 1 text)
    | cons text rest =>
      cases b with
      | nil => exact absurd (List.cons.inj h).1 (entry_ne_empty 1 text)
      | cons => exact entries_inj h
  · exact congrArg listing

/-- What is written to the output. -/
def Response.output : Response → String
  | .lines answer => asOutput answer
  | .farewell => ""

/-- No quoted text reads as an error: it begins with a quotation mark. -/
theorem quote_ne_error (text message : String) :
    asOutput [quote text] ≠ (Response.error message).output := by
  intro heq
  change asOutput [quote text] = asOutput ["(error) " ++ message] at heq
  have hchars := congrArg String.toList heq
  simp only [asOutput, List.map_cons, String.join_cons, String.toList_append, toList_quote,
    quoteChars, List.cons_append] at hchars
  cases hchars

/-! ## Sessions from their start on -/

/-- The sessions that come about: one is started, and from then on it sweeps and carries out
commands, at any instants. -/
inductive Session.Reached : Session → Prop
  | start {options : Options} {now : Nat} {order : Enumeration} {s : Session}
      (started : Session.start options now order = .ok s) : Reached s
  | catchUp {s : Session} (earlier : Reached s) (now : Nat) : Reached (s.catchUp now)
  | respond {s : Session} (earlier : Reached s) (now : Nat) (command : Command) :
      Reached (s.respond now command).2

namespace Session

/-- The pairs stored. -/
def stored (s : Session) : Std.TreeMap Bytes Bytes := s.tiers.store.pairs

variable {s t : Session} {d : Dictionary}

/-- The store of a session has the dictionary's words and no other bytes. -/
theorem Holds.encoded (h : s.Holds d) : Encoded d s.stored := by
  obtain ⟨pairs, _, ⟨_, hplain⟩, hencoded⟩ := h
  rw [stored, show s.tiers.store.pairs = pairs from congrArg PlainStore.pairs hplain]
  exact hencoded

/-- A session that is reached holds some dictionary. -/
theorem Reached.holds (h : s.Reached) : ∃ d, s.Holds d := by
  induction h with
  | start started => exact ⟨∅, holds_start started⟩
  | catchUp _ now ih =>
    obtain ⟨d, hd⟩ := ih
    exact ⟨d, hd.of_tiers rfl⟩
  | respond _ now command ih =>
    obtain ⟨d, hd⟩ := ih
    by_cases hquit : command = .quit
    · rw [hquit]
      exact ⟨d, hd⟩
    · obtain ⟨_, _, _, hnext⟩ := hd.respond now hquit
      exact ⟨_, hnext⟩

/-- Among these sessions the program goes on from line to line. -/
theorem Reached.take (h : s.Reached) {now : Nat} {line : Bytes} {next : Session}
    {answer : List String} (took : s.take now line = .goOn next answer) : next.Reached := by
  rw [Session.take] at took
  cases hdecode : Utf8.decode line with
  | error fault =>
    rw [hdecode] at took
    cases took
  | ok text =>
    have hnext := (h.catchUp now).respond now (Command.ofLine text)
    rw [hdecode] at took
    dsimp only at took
    split at took
    · cases took
    · next hrespond =>
      cases took
      rw [hrespond] at hnext
      exact hnext

/-- What is stored is a text, and shown in quotes. -/
theorem Reached.respond_get (h : s.Reached) {key : String} {value : Bytes}
    (present : s.stored[Bytes.ofString key]? = some value) (now : Nat) :
    ∃ text, value = Bytes.ofString text ∧
      (s.respond now (.get key)).1 = .line (quote text) := by
  obtain ⟨d, hd⟩ := h.holds
  rw [hd.encoded.read, Option.map_eq_some_iff] at present
  obtain ⟨text, htext, hvalue⟩ := present
  obtain ⟨answer, hanswer, hshown, _⟩ := hd.get now key
  refine ⟨text, hvalue.symm, ?_⟩
  rw [Dictionary.respond, htext] at hshown
  rw [hanswer, Option.some.inj hshown]
  rfl

/-- The stored keys are texts, and listed in quotes. -/
theorem Reached.respond_keys (h : s.Reached) (now : Nat) :
    ∃ texts, s.stored.keys = texts.map Bytes.ofString ∧
      (s.respond now .keys).1 = .lines (listing texts) := by
  obtain ⟨d, hd⟩ := h.holds
  refine ⟨d.keys, hd.encoded.keys_eq, ?_⟩
  rw [Session.respond, Prod.map_fst, hd.storedKeys.1, ofKeys_ofString]
  cases d.keys <;> rfl

end Session

/-! ## The law -/

namespace Session

variable {s t : Session}

/-- Replies to two reads are written alike just when the values are the same, in whichever sessions
and under whichever keys. -/
theorem Reached.output_get_inj (hs : s.Reached) (ht : t.Reached) {key other : String}
    {value value' : Bytes} (present : s.stored[Bytes.ofString key]? = some value)
    (present' : t.stored[Bytes.ofString other]? = some value') (now later : Nat) :
    (s.respond now (.get key)).1.output = (t.respond later (.get other)).1.output ↔
      value = value' := by
  obtain ⟨text, rfl, hreply⟩ := hs.respond_get present now
  obtain ⟨text', rfl, hreply'⟩ := ht.respond_get present' later
  have hone (text : String) : ∀ line ∈ [quote text], OneLine line.toList :=
    List.forall_mem_singleton.mpr (oneLine_quote text)
  rw [hreply, hreply', Bytes.ofString_inj, ← @quote_inj text, ← @List.singleton_inj _ (quote text)]
  exact asOutput_inj (hone text) (hone text')

/-- Lists of keys are written alike just when the same keys are stored. -/
theorem Reached.output_keys_inj (hs : s.Reached) (ht : t.Reached) (now later : Nat) :
    (s.respond now .keys).1.output = (t.respond later .keys).1.output ↔
      ∀ key, key ∈ s.stored ↔ key ∈ t.stored := by
  obtain ⟨texts, hkeys, hreply⟩ := hs.respond_keys now
  obtain ⟨texts', hkeys', hreply'⟩ := ht.respond_keys later
  rw [hreply, hreply', ← OrderedMap.keys_eq_iff, hkeys, hkeys',
    List.map_inj_right fun _ _ => Bytes.ofString_inj.mp, ← listing_inj]
  exact asOutput_inj (oneLine_listing texts) (oneLine_listing texts')

end Session

/-- **Replies are unambiguous.** A look-up of a stored key is answered with its value in quotes, which
is one line that starts and ends with a double quote; it is written otherwise than any error, and
otherwise than the answer about another value, in this session or in another. The stored keys, if
there are any, are listed in the order of their bytes, a line for each with its place and the key in
quotes; what is written for other keys is different. -/
theorem replies_unambiguous {s t : Session} (hs : s.Reached) (ht : t.Reached) :
    (∀ {key : String} {value : Bytes}, s.stored[Bytes.ofString key]? = some value → ∀ now,
      ∃ text inner, value = Bytes.ofString text ∧ (s.respond now (.get key)).1 = .line (quote text) ∧
        (quote text).toList = '"' :: inner ++ ['"'] ∧ OneLine (quote text).toList ∧
        lines (Bytes.ofString (asOutput [quote text])) = [Bytes.ofString (quote text)] ∧
        ∀ message, asOutput [quote text] ≠ (Response.error message).output) ∧
    (∀ {key other : String} {value value' : Bytes},
      s.stored[Bytes.ofString key]? = some value → t.stored[Bytes.ofString other]? = some value' →
        ∀ now later, (s.respond now (.get key)).1.output = (t.respond later (.get other)).1.output ↔
          value = value') ∧
    (0 < s.stored.size → ∀ now, ∃ texts answer : List String,
      s.stored.keys = texts.map Bytes.ofString ∧ s.stored.keys.Pairwise (· < ·) ∧
        (s.respond now .keys).1 = .lines answer ∧ answer.length = s.stored.size ∧
        (∀ {i text}, texts[i]? = some text →
          answer[i]? = some (toString (i + 1) ++ ") " ++ quote text)) ∧
        lines (Bytes.ofString (asOutput answer)) = answer.map Bytes.ofString) ∧
    ∀ now later, (s.respond now .keys).1.output = (t.respond later .keys).1.output ↔
      ∀ key, key ∈ s.stored ↔ key ∈ t.stored := by
  refine ⟨?_, hs.output_get_inj ht, ?_, hs.output_keys_inj ht⟩
  · intro key value present now
    obtain ⟨text, hvalue, hreply⟩ := hs.respond_get present now
    refine ⟨text, text.toList.flatMap escape, hvalue, hreply, toList_quote text,
      oneLine_quote text, ?_, quote_ne_error text⟩
    exact lines_asOutput (List.forall_mem_singleton.mpr (oneLine_quote text))
  · intro positive now
    obtain ⟨texts, hkeys, hreply⟩ := hs.respond_keys now
    have hsize : texts.length = s.stored.size := by
      rw [← Std.TreeMap.length_keys, hkeys, List.length_map]
    have hnonempty : texts ≠ [] := List.ne_nil_of_length_pos (hsize ▸ positive)
    refine ⟨texts, listing texts, hkeys, ?_, hreply, ?_, ?_, lines_asOutput (oneLine_listing texts)⟩
    · exact Std.TreeMap.ordered_keys.imp Bytes.compare_eq_lt.mp
    · rw [listing_of_ne_nil hnonempty, List.length_map, List.length_zipIdx, hsize]
    · intro i text htext
      rw [listing_of_ne_nil hnonempty, List.getElem?_map, List.getElem?_zipIdx, htext,
        Nat.zero_add]
      rfl

/-- A session that has stored a control character, and one, enumerated backwards, that has stored
what the escape of it looks like and a key with a quote. They reply differently to a look-up and
list different keys. -/
theorem replies_unambiguous_lookalikes :
    ∃ s t : Session, s.Reached ∧ t.Reached ∧
      s.stored.toList = [(Bytes.ofString "a", Bytes.ofString "\x1b")] ∧
      t.stored.toList = [(Bytes.ofString "a", Bytes.ofString "\\u\x7b1b\x7d"),
        (Bytes.ofString "a\"", Bytes.ofString "b")] ∧
      (s.respond 3 (.get "a")).1.output ≠ (t.respond 3 (.get "a")).1.output ∧
      (∃ answer, (t.respond 3 .keys).1 = .lines answer ∧ answer.length = 2 ∧
        answer[1]? = some "2) \"a\\\"\"" ∧
        lines (Bytes.ofString (asOutput answer)) = answer.map Bytes.ofString) ∧
      (s.respond 3 .keys).1.output ≠ (t.respond 3 .keys).1.output := by
  obtain ⟨s, hs, hstored⟩ : ∃ s : Session, s.Reached ∧
      s.stored.toList = [(Bytes.ofString "a", Bytes.ofString "\x1b")] :=
    ⟨_, (@Session.Reached.start { capacity := 1, batchSize := 1 } 0 .byKey _ rfl).respond 1
      (.put "a" "\x1b"), by decide +kernel⟩
  obtain ⟨t, ht, hstored'⟩ : ∃ t : Session, t.Reached ∧
      t.stored.toList = [(Bytes.ofString "a", Bytes.ofString "\\u\x7b1b\x7d"),
        (Bytes.ofString "a\"", Bytes.ofString "b")] :=
    ⟨_, ((@Session.Reached.start { capacity := 1, batchSize := 1 } 0
      ⟨List.reverse, List.reverse_perm⟩ _ rfl).respond 1 (.put "a\"" "b")).respond 2
      (.put "a" "\\u\x7b1b\x7d"), by decide +kernel⟩
  obtain ⟨-, hget, -, hkeys⟩ := replies_unambiguous hs ht
  obtain ⟨-, -, hlisted, -⟩ := replies_unambiguous ht hs
  refine ⟨s, t, hs, ht, hstored, hstored', ?_, ?_, ?_⟩
  · have hvalue := OrderedMap.mem_toList.mp (hstored ▸ List.mem_cons_self)
    have hlookalike := OrderedMap.mem_toList.mp (hstored' ▸ List.mem_cons_self)
    intro heq
    have hsame := (hget hvalue hlookalike 3 3).mp heq
    revert hsame
    decide +kernel
  · have hnames : t.stored.keys = ["a", "a\""].map Bytes.ofString := by
      rw [← Std.TreeMap.map_fst_toList_eq_keys, hstored']
      rfl
    have hsize : t.stored.size = 2 := by
      rw [← Std.TreeMap.length_keys, hnames]
      rfl
    obtain ⟨texts, answer, htexts, -, hreply, hlength, hentry, hlines⟩ :=
      hlisted (hsize ▸ Nat.two_pos) 3
    obtain rfl : ["a", "a\""] = texts :=
      (List.map_inj_right fun _ _ => Bytes.ofString_inj.mp).mp (hnames.symm.trans htexts)
    exact ⟨answer, hreply, hlength.trans hsize, (hentry rfl).trans (by decide +kernel), hlines⟩
  · intro heq
    have hkey := (hkeys 3 3).mp heq (Bytes.ofString "a\"")
    rw [← Std.TreeMap.mem_keys, ← Std.TreeMap.mem_keys, ← Std.TreeMap.map_fst_toList_eq_keys,
      ← Std.TreeMap.map_fst_toList_eq_keys, hstored, hstored'] at hkey
    revert hkey
    decide +kernel

end Shell

end TieredStore
