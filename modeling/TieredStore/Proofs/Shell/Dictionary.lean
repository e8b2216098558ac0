import TieredStore.Proofs.OrderedMap
import TieredStore.Proofs.Shell.Phrases
import TieredStore.Proofs.Text.Encoding
import TieredStore.Proofs.Tiers.Assembly
import TieredStore.Shell

/-!
# The shell is a dictionary

A `Dictionary` has texts under texts and answers the commands that ask for the stored pairs. It has
no cache, no bytes and no settings. A session stores bytes behind a cache, and shows bytes as texts
again; it answers as a dictionary does because its tiers stand for a plain store
(`Tiers.Stands`), and because the pairs in there are those of the dictionary in bytes (`Encoded`),
which neither lose a text nor change the order of the keys.

**The law** (`replies_of_dictionary`): whatever the lines are, and whatever comes between the
commands on the stored pairs, a session that was started answers these as a dictionary does that is
empty at first. So two sessions answer them alike, whatever their settings are and however the lines
are phrased.
-/

namespace TieredStore.Shell

/-! ## Dictionaries -/

/-- The order of texts that is the order of their bytes. -/
abbrev byBytes : String → String → Ordering := compareOn Bytes.ofString

instance : Std.LawfulEqCmp byBytes where
  eq_of_compare h := Bytes.ofString_inj.mp (Std.LawfulEqCmp.eq_of_compare h)

/-- Texts under texts. -/
abbrev Dictionary := Std.TreeMap String String byBytes

/-- The lines of an answer, if the command is on the stored pairs. -/
def Command.shown (command : Command) (answer : List String) : Option (List String) :=
  if command.onPairs then some answer else none

namespace Dictionary

/-- The lines that answer a command on the stored pairs, and the dictionary after it. -/
def respond (d : Dictionary) : Command → List String × Dictionary
  | .put key value => (["OK"], d.insert key value)
  | .get key =>
    match d[key]? with
    | some value => ([Text.quote value], d)
    | none => (["(error) key not found: " ++ Bytes.hex (Bytes.ofString key)], d)
  | .has key => ([if d.contains key then "(integer) 1" else "(integer) 0"], d)
  | .delete key => (["OK"], d.erase key)
  | .keys =>
    match d.keys with
    | [] => (["(empty)"], d)
    | keys => (keys.zipIdx.map fun (key, i) => toString (i + 1) ++ ") " ++ Text.quote key, d)
  | .misused usage => (["(error) usage: " ++ usage], d)
  | .nothing | .quit | .seen _ | .hash .. | .stats | .unknown _ => ([], d)

/-- What is answered to commands, one after another, until one ends the session; to a command that
is not on the stored pairs, nothing. -/
def replies (d : Dictionary) : List Command → List (Option (List String))
  | [] => []
  | command :: rest =>
    if command = .quit then []
    else command.shown (d.respond command).1 :: replies (d.respond command).2 rest

end Dictionary

/-- What a session answers in the same way to lines, each with the instant at which it is read. -/
def Session.replies (s : Session) : List (Nat × String) → List (Option (List String))
  | [] => []
  | (now, line) :: rest =>
    match s.take now (Bytes.ofString line) with
    | .goOn s answer => (Command.ofLine line).shown answer :: s.replies rest
    | .quit | .garbled _ => []

/-! ## Lines phrased in another way -/

/-- Other commands leave a dictionary as it is. -/
theorem Dictionary.respond_other {command : Command} (other : command.onPairs = false)
    (d : Dictionary) : (d.respond command).2 = d := by
  cases command with
  | put | get | has | delete | keys => cases other
  | nothing | quit | seen | hash | stats | misused | unknown => rfl

/-- A command that is not about the pairs shows nothing of them. -/
theorem Command.shown_other {command : Command} (other : command.onPairs = false)
    (answer : List String) : command.shown answer = none := by
  rw [shown, other]
  rfl

/-- What a dictionary answers is the same for lines that are phrased in another way. -/
theorem Dictionary.replies_rephrased {input others : List (Nat × String)}
    (rephrased : List.Forall₂ (fun asked other => Rephrased asked.2 other.2) input others) :
    ∀ d : Dictionary, d.replies (input.map fun asked => Command.ofLine asked.2) =
      d.replies (others.map fun asked => Command.ofLine asked.2) := by
  induction rephrased with
  | nil => exact fun d => rfl
  | @cons asked other _ _ hline _ ih =>
    intro d
    rw [List.map_cons, List.map_cons, replies, replies]
    rcases rephrased_iff.mp hline with hsame | ⟨hasked, hother, hends⟩
    · rw [hsame, ih]
    · rw [Command.shown_other hasked, Command.shown_other hother, respond_other hasked,
        respond_other hother, ih]
      by_cases hquit : Command.ofLine asked.2 = .quit
      · rw [if_pos hquit, if_pos (hends.mp hquit)]
      · rw [if_neg hquit, if_neg fun h => hquit (hends.mpr h)]

/-! ## A dictionary in bytes -/

/-- Pairs of bytes that are a dictionary's. -/
structure Encoded (d : Dictionary) (pairs : Std.TreeMap Bytes Bytes) : Prop where
  read : ∀ key, pairs[Bytes.ofString key]? = d[key]?.map Bytes.ofString
  texts : ∀ {key value}, pairs[key]? = some value → ∃ text, key = Bytes.ofString text

/-- An empty store has the words of an empty dictionary. -/
theorem encoded_empty : Encoded ∅ ∅ where
  read key := by rw [Std.TreeMap.getElem?_emptyc, Std.TreeMap.getElem?_emptyc, Option.map_none]
  texts h := by
    rw [Std.TreeMap.getElem?_emptyc] at h
    cases h

variable {d : Dictionary} {pairs : Std.TreeMap Bytes Bytes}

/-- Writing the bytes of a word is writing the word: no two words have the same bytes. -/
theorem Encoded.insert (h : Encoded d pairs) (key value : String) :
    Encoded (d.insert key value)
      (pairs.insert (Bytes.ofString key) (Bytes.ofString value)) where
  read other := by
    rw [OrderedMap.getElem?_insert, OrderedMap.getElem?_insert, h.read]
    simp only [Bytes.ofString_inj]
    split <;> rfl
  texts {other _} hother := by
    rw [OrderedMap.getElem?_insert] at hother
    split at hother
    · next heq => exact ⟨key, heq.symm⟩
    · exact h.texts hother

/-- Likewise for erasing, which reaches no other word. -/
theorem Encoded.erase (h : Encoded d pairs) (key : String) :
    Encoded (d.erase key) (pairs.erase (Bytes.ofString key)) where
  read other := by
    rw [OrderedMap.getElem?_erase, OrderedMap.getElem?_erase, h.read]
    simp only [Bytes.ofString_inj]
    split <;> rfl
  texts {other _} hother := by
    rw [OrderedMap.getElem?_erase] at hother
    split at hother
    · cases hother
    · exact h.texts hother

/-- The pairs stand in the order of the dictionary. -/
theorem Encoded.toList_eq (h : Encoded d pairs) :
    pairs.toList = d.toList.map fun p => (Bytes.ofString p.1, Bytes.ofString p.2) := by
  apply OrderedMap.toList_eq_of_mem_iff
  · rw [List.pairwise_map]
    exact OrderedMap.toList_ascending d
  · rintro ⟨key, value⟩
    rw [List.mem_map]
    constructor
    · rintro ⟨p, hp, heq⟩
      cases heq
      rw [h.read, OrderedMap.mem_toList.mp hp, Option.map_some]
    · intro hpairs
      obtain ⟨text, rfl⟩ := h.texts hpairs
      rw [h.read] at hpairs
      obtain ⟨shown, hshown, rfl⟩ := Option.map_eq_some_iff.mp hpairs
      exact ⟨(text, shown), OrderedMap.mem_toList.mpr hshown, rfl⟩

/-- Words and their bytes are sorted alike, so the keys correspond in their order. -/
theorem Encoded.keys_eq (h : Encoded d pairs) :
    pairs.keys = d.keys.map Bytes.ofString := by
  rw [← Std.TreeMap.map_fst_toList_eq_keys, h.toList_eq, List.map_map,
    ← Std.TreeMap.map_fst_toList_eq_keys, List.map_map]
  rfl

/-- A word is found under its bytes just when the dictionary has it, in whatever order the store
goes through its pairs. -/
theorem Encoded.plain_read (h : Encoded d pairs) (order : Enumeration) (key : String) :
    PlainStore.read { pairs, order } (Bytes.ofString key) =
      match d[key]? with
      | some value => .ok (Bytes.ofString value)
      | none => .error (.keyNotFound (Bytes.ofString key)) := by
  rw [PlainStore.read, PlainStore.barrier_none rfl rfl]
  dsimp only
  rw [h.read]
  cases d[key]? <;> rfl

/-! ## A session and its dictionary -/

/-- What a session has stored is a dictionary. -/
def Session.Holds (s : Session) (d : Dictionary) : Prop :=
  ∃ pairs order, s.tiers.Stands { pairs, order } ∧ Encoded d pairs

namespace Session

variable {s : Session}

/-- Only the tiers of a session count. -/
theorem Holds.of_tiers (h : s.Holds d) {u : Session} (same : u.tiers = s.tiers) : u.Holds d := by
  unfold Holds
  rw [same]
  exact h

/-- A walk that never stops collects all keys. -/
theorem visitWhile_collect {t : Tiers Cache MemoryStore} :
    ∀ (stored : List (Bytes × Bytes)) (earlier : List Bytes),
      visitWhile (fun pair (tiers, keys) => (true, tiers, pair.1 :: keys)) stored (t, earlier) =
        (t, (stored.map Prod.fst).reverse ++ earlier) := by
  intro stored
  induction stored with
  | nil => exact fun earlier => rfl
  | cons pair rest ih =>
    intro earlier
    rw [List.map_cons, List.reverse_cons, List.append_assoc, List.singleton_append]
    exact ih (pair.1 :: earlier)

/-- The keys are collected in the order of the store and sorted after that, so the order of the
store is not seen. -/
theorem Holds.storedKeys (h : s.Holds d) :
    s.storedKeys.1 = d.keys.map Bytes.ofString ∧ s.storedKeys.2 = s := by
  obtain ⟨pairs, order, ⟨_, hplain⟩, hencoded⟩ := h
  have hpairs : s.tiers.store.pairs = pairs := congrArg PlainStore.pairs hplain
  have horder : s.tiers.store.order = order := congrArg PlainStore.order hplain
  have hwalk := Tiers.walk_inUse (congrArg PlainStore.destroyed hplain)
    (congrArg PlainStore.closed hplain)
    (fun pair ((tiers, keys) : Tiers Cache MemoryStore × List Bytes) =>
      (true, tiers, pair.1 :: keys)) []
  rw [visitWhile_collect, List.append_nil, hpairs, horder] at hwalk
  -- in whichever order the store went through its keys, they are sorted now
  have hperm : ((order.arrange pairs.toList).map Prod.fst).Perm pairs.keys :=
    Std.TreeMap.map_fst_toList_eq_keys ▸ (order.perm pairs.toList).map Prod.fst
  unfold Session.storedKeys
  rw [hwalk]
  dsimp only
  rw [List.reverse_reverse, OrderedMap.mergeSort_keys hperm, hencoded.keys_eq]
  exact ⟨rfl, rfl⟩

/-- A word is quoted as the text that it is. -/
theorem quoted_ofString (text : String) :
    Response.quoted (Bytes.ofString text) = Text.quote text := by
  rw [Response.quoted, Utf8.lossyText_ofString]

/-- Words are listed by places, or as nothing. -/
theorem ofKeys_ofString (keys : List String) :
    Response.ofKeys (keys.map Bytes.ofString) =
      match keys with
      | [] => .lines ["(empty)"]
      | keys =>
        .lines (keys.zipIdx.map fun (key, i) => toString (i + 1) ++ ") " ++ Text.quote key) := by
  cases keys with
  | nil => rfl
  | cons key rest =>
    rw [List.map_cons, Response.ofKeys, ← List.map_cons, List.zipIdx_map, List.map_map]
    simp only [Function.comp_def, Response.numbered, quoted_ofString, Prod.map]
    · rfl
    · rintro ⟨⟩

/-- Asking for news leaves the tiers alone. -/
theorem tiers_see (now : Nat) (key : String) : (s.see now key).2.tiers = s.tiers := by
  unfold see
  split
  · rfl
  · split <;> rfl

theorem see_lines (now : Nat) (key : String) : ∃ line, (s.see now key).1 = .lines [line] := by
  unfold see
  split
  · exact ⟨_, rfl⟩
  · split <;> exact ⟨_, rfl⟩

/-- A session and a dictionary answer a command alike if it is on the stored pairs, and what the
session has stored after it is the dictionary after it. -/
def Agrees (s : Session) (d : Dictionary) (now : Nat) (command : Command) : Prop :=
  ∃ answer, (s.respond now command).1 = .lines answer ∧
    command.shown answer = command.shown (d.respond command).1 ∧
      (s.respond now command).2.Holds (d.respond command).2

/-- A session that holds a dictionary answers a write as the dictionary does, and holds what that
has become. -/
theorem Holds.put (h : s.Holds d) (now : Nat) (key value : String) :
    s.Agrees d now (.put key value) := by
  obtain ⟨pairs, order, hstands, hencoded⟩ := h
  obtain ⟨hanswer, hnext⟩ := hstands.put (Bytes.ofString key) (Bytes.ofString value)
  exact ⟨["OK"], congrArg Response.ofOutcome hanswer, rfl, _, order, hnext,
    hencoded.insert key value⟩

theorem Holds.delete (h : s.Holds d) (now : Nat) (key : String) : s.Agrees d now (.delete key) := by
  obtain ⟨pairs, order, hstands, hencoded⟩ := h
  obtain ⟨hanswer, hnext⟩ := hstands.remove (Bytes.ofString key)
  exact ⟨["OK"], congrArg Response.ofOutcome hanswer, rfl, _, order, hnext, hencoded.erase key⟩

theorem Holds.get (h : s.Holds d) (now : Nat) (key : String) : s.Agrees d now (.get key) := by
  obtain ⟨pairs, order, hstands, hencoded⟩ := h
  obtain ⟨hanswer, hnext⟩ := hstands.get (Bytes.ofString key)
  rw [hencoded.plain_read] at hanswer
  rw [Agrees, Session.respond, Dictionary.respond]
  cases hget : s.tiers.get (Bytes.ofString key) with
  | mk outcome tiers =>
    rw [hget] at hanswer hnext
    obtain rfl : outcome = _ := hanswer
    cases d[key]? with
    | none => exact ⟨_, rfl, rfl, pairs, order, hnext, hencoded⟩
    | some value =>
      refine ⟨[Text.quote value], ?_, rfl, pairs, order, hnext, hencoded⟩
      rw [← quoted_ofString]
      rfl

theorem Holds.has (h : s.Holds d) (now : Nat) (key : String) : s.Agrees d now (.has key) := by
  obtain ⟨pairs, order, hstands, hencoded⟩ := h
  obtain ⟨hanswer, hnext⟩ := hstands.has (Bytes.ofString key)
  rw [hencoded.plain_read] at hanswer
  have hthere : (s.tiers.has (Bytes.ofString key)).1.isOk = d.contains key := by
    rw [hanswer, Std.TreeMap.contains_eq_isSome_getElem?]
    cases d[key]? <;> rfl
  refine ⟨_, congrArg Response.ofPresence hthere, rfl, pairs, order, hnext, hencoded⟩

/-- Listing asks the store only, and the news not at all. -/
theorem Holds.keys (h : s.Holds d) (now : Nat) : s.Agrees d now .keys := by
  obtain ⟨hkeys, hsame⟩ := h.storedKeys
  rw [Agrees, Session.respond, Dictionary.respond, Prod.map_fst, Prod.map_snd, hsame, hkeys,
    ofKeys_ofString]
  cases d.keys with
  | nil => exact ⟨_, rfl, rfl, h⟩
  | cons key rest => exact ⟨_, rfl, rfl, h⟩

/-- A session answers a command on the stored pairs as its dictionary does, and other commands do
not touch what is stored. -/
theorem Holds.respond (h : s.Holds d) (now : Nat) {command : Command} (stays : command ≠ .quit) :
    s.Agrees d now command := by
  cases command with
  | put key value => exact h.put now key value
  | get key => exact h.get now key
  | has key => exact h.has now key
  | delete key => exact h.delete now key
  | keys => exact h.keys now
  | seen key =>
    obtain ⟨line, hline⟩ := s.see_lines now key
    exact ⟨[line], hline, rfl, h.of_tiers (s.tiers_see now key)⟩
  | hash algorithm data =>
    rw [Agrees, Session.respond]
    cases DigestKind.ofName algorithm with
    | ok kind => exact ⟨_, rfl, rfl, h⟩
    | error failure => exact ⟨_, rfl, rfl, h⟩
  | quit => exact absurd rfl stays
  | nothing | stats | misused _ | unknown _ => exact ⟨_, rfl, rfl, h⟩

/-- From line to line a session stays with its dictionary. -/
theorem Holds.replies (input : List (Nat × String)) :
    ∀ {s : Session} {d : Dictionary}, s.Holds d →
      s.replies input = d.replies (input.map fun asked => Command.ofLine asked.2) := by
  induction input with
  | nil => exact fun _ => rfl
  | cons asked rest ih =>
    obtain ⟨now, line⟩ := asked
    intro s d h
    rw [Session.replies, List.map_cons, Dictionary.replies, take, Utf8.decode_ofString]
    dsimp only
    by_cases hquit : Command.ofLine line = .quit
    · rw [if_pos hquit, hquit]
      rfl
    · have hswept : (s.catchUp now).Holds d := h.of_tiers rfl
      obtain ⟨answer, hanswer, hshown, hnext⟩ := hswept.respond now hquit
      rw [if_neg hquit]
      cases hrespond : (s.catchUp now).respond now (Command.ofLine line) with
      | mk response s' =>
        rw [hrespond] at hanswer hnext
        obtain rfl : response = _ := hanswer
        dsimp only
        rw [hshown, ih hnext]

/-- A store that the session opens is in memory, and empty. -/
theorem opened_empty {ofMemory : MemoryStore → MemoryStore} {settings : StoreSettings}
    {path : String} {store : MemoryStore}
    (opened : (Patience.tryOpen {} path
      (StoreOpener.standard ofMemory settings : StoreOpener Unit MemoryStore).create ()).outcome =
        .ok store) : store = ofMemory .empty := by
  let opener : StoreOpener Unit MemoryStore := .standard ofMemory settings
  by_cases hkind : settings.kind = .memory
  · have hcreate : opener.create path () = (.ok (ofMemory .empty), ()) := by
      simp [opener, StoreOpener.create, StoreOpener.standard, hkind]
    have hdecides : Patience.decides (opener.create path ()).1 = true := by
      rw [hcreate]
      rfl
    rw [Patience.tryOpen, Patience.attemptWith_decided (.inr hdecides), hcreate] at opened
    exact (Except.ok.inj opened).symm
  · have hnone : settings.kind ∉
        ([] : List (StoreKind × StoreBuilder Unit MemoryStore)).map Prod.fst :=
      List.not_mem_nil
    have hcreate : opener.create path () = (.error (.unknownStoreKind settings.kind.name), ()) :=
      StoreOpener.create_unknown hkind hnone ofMemory path ()
    have hdecides : Patience.decides (opener.create path ()).1 = true := by
      rw [hcreate]
      rfl
    rw [Patience.tryOpen, Patience.attemptWith_decided (.inr hdecides), hcreate] at opened
    cases opened

/-- A session starts with nothing stored. -/
theorem holds_start {options : Options} {now : Nat} {order : Enumeration}
    (started : start options now order = .ok s) : s.Holds ∅ := by
  obtain ⟨tiers, houtcome, rfl⟩ := Cache.eq_ok_of_map started
  let opener : StoreOpener Unit MemoryStore :=
    .standard ({ · with order }) options.tierSettings.store
  cases hrefusal : options.tierSettings.refusal? with
  | some failure =>
    rw [Tiers.assemble_refused {} opener.create {} () hrefusal] at houtcome
    cases houtcome
  | none =>
    obtain ⟨cache, hcache, hassembly⟩ :=
      Tiers.assemble_accepted {} opener.create {} () hrefusal
    rw [hassembly] at houtcome
    obtain ⟨store, hopened, rfl⟩ := Cache.eq_ok_of_map houtcome
    rw [opened_empty hopened]
    exact ⟨∅, order, Tiers.stands_of_ofSettings hcache _, encoded_empty⟩

end Session

/-- **The shell is a dictionary.** A session that was started answers the commands on the stored
pairs as a dictionary does that is empty at first, to the end of the session. These commands are
just those that are phrased as `Phrase` tells, and the end is phrased as `Ends` tells. So any other
session that was started answers them the same, also if its store is enumerated in another order,
the lines are phrased in another way and other lines stand between them. -/
theorem replies_of_dictionary {options : Options} {now : Nat} {order : Enumeration}
    {session : Session} (started : Session.start options now order = .ok session)
    (input : List (Nat × String)) :
    session.replies input =
        Dictionary.replies ∅ (input.map fun asked => Command.ofLine asked.2) ∧
      (∀ line command, Phrase line command ↔
        command.onPairs = true ∧ Command.ofLine line = command) ∧
      (∀ line, Ends line ↔ Command.ofLine line = .quit) ∧
      ∀ {others : Options} {later : Nat} {order' : Enumeration} {second : Session},
        Session.start others later order' = .ok second →
          ∀ {input' : List (Nat × String)},
            List.Forall₂ (fun asked other => Rephrased asked.2 other.2) input input' →
              second.replies input' = session.replies input := by
  have hreplies := (Session.holds_start started).replies input
  refine ⟨hreplies, fun line command => Phrase.iff_ofLine, fun line => ends_iff, ?_⟩
  intro others later order' second started' input' hrephrased
  rw [(Session.holds_start started').replies input', hreplies,
    Dictionary.replies_rephrased hrephrased]

/-- A session with room for one entry, and one with a cache of another kind and a store enumerated
backwards that is told the same in other phrases: keys that left the cache are found and listed, a
value keeps the blanks within it, and what comes behind the end is not answered. -/
theorem replies_of_dictionary_rephrased :
    ∃ session second, Session.start { capacity := 1, batchSize := 1 } 0 = .ok session ∧
      Session.start { cacheKind := .sharded, capacity := 3, shards := 2, batchSize := 2 } 7
          ⟨List.reverse, List.reverse_perm⟩ = .ok second ∧
        let input := [(0, "PUT b one two"), (1, "PUT a 1"), (2, "GET b"), (3, "SEEN b"),
          (4, "PUT a"), (5, "HAS c"), (6, "KEYS"), (7, "DEL a"), (8, "GET a"), (9, "QUIT"),
          (10, "KEYS")]
        let others := [(8, "  put  b\tone two "), (8, "Put a  1"), (8, "get b "), (8, "STATS"),
          (8, "put a "), (8, "hAS c"), (8, "keys b"), (8, "del  a"), (8, " GET a"), (8, "exit"),
          (8, "KEYS")]
        session.replies input =
            [some ["OK"], some ["OK"], some ["\"one two\""], none,
              some ["(error) usage: PUT <key> <value>"], some ["(integer) 0"],
              some ["1) \"a\"", "2) \"b\""], some ["OK"], some ["(error) key not found: 61"]] ∧
          second.replies others = session.replies input := by
  refine ⟨_, _, rfl, rfl, ?_⟩
  intro input others
  obtain ⟨hreplies, _, _, hothers⟩ :=
    @replies_of_dictionary { capacity := 1, batchSize := 1 } 0 .byKey _ rfl input
  refine ⟨hreplies.trans (by decide +kernel), ?_⟩
  apply @hothers { cacheKind := .sharded, capacity := 3, shards := 2, batchSize := 2 } 7
    ⟨List.reverse, List.reverse_perm⟩ _ rfl
  decide +kernel

end TieredStore.Shell
