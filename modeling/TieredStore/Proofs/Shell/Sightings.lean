import TieredStore.Proofs.Cache.BySettings
import TieredStore.Proofs.Expiry.Watched
import TieredStore.Proofs.Shell.Phrases
import TieredStore.Proofs.Text.Encoding
import TieredStore.Shell

/-!
# A key is new once in a lifetime

A session that is asked for a key looks it up, which may drop it, and remembers it if it was not
there. Its sweeper drops keys too, and so does whoever else sweeps the set, between two lines or
even between looking a key up and remembering it. None of this is seen: a key that is dropped has
expired, and it is remembered only when it is not live.

So the answers about a key depend on each other alone. `Exact` says how, given those before;
`Remembers` ties them to the set, through the history of what was remembered in it.

**The law** (`Session.replies_of_sightings`): a key is seen if it was new less than a lifetime ago,
and new otherwise. News of a key are a lifetime apart, and whatever else a session does, asking at
the same instants is answered the same.
-/

namespace TieredStore.Shell

open ExpiringSet

/-! ## What happens to a session -/

/-- What happens to a session at an instant. -/
inductive Occurrence
  /-- A line is read. -/
  | line (now : Nat) (text : String)
  /-- A line asks for a key, and the set is swept after it was looked up. -/
  | crossed (now : Nat) (key : String) (named : key ≠ "")
  /-- The set is swept. -/
  | sweep (now : Nat)

def Occurrence.instant : Occurrence → Nat
  | line now _ | crossed now _ _ | sweep now => now

/-- The clock never goes back. -/
def Chronological (occurrences : List Occurrence) : Prop :=
  occurrences.Pairwise fun a b => a.instant ≤ b.instant

instance (occurrences : List Occurrence) : Decidable (Chronological occurrences) :=
  inferInstanceAs (Decidable (List.Pairwise _ _))

/-- A command with its answer, and the instant of both. -/
structure Answered where
  instant : Nat
  command : Command
  answer : List String
  deriving DecidableEq, Repr

/-- Whether an answer is about a key. -/
def Answered.isAbout (key : String) (a : Answered) : Bool :=
  a.command = .seen key

namespace Session

/-- Tells whether a key was seen lately, as `see` does; after the key was looked up, something is
done to the set. -/
def seeAround (between : ExpiringSet → ExpiringSet) (s : Session) (now : Nat) (key : String) :
    Response × Session :=
  match s.seen.has now key with
  | (true, seen) => (.line "seen", { s with seen := between seen })
  | (false, seen) =>
    match (between seen).add now key with
    | .ok seen => (.line "new", { s with seen })
    | .error failure => (.error failure.message, { s with seen := between seen })

/-- The answers that a session gives, until a line ends it. -/
def answers (s : Session) : List Occurrence → List Answered
  | [] => []
  | .line now text :: rest =>
    match s.take now (Bytes.ofString text) with
    | .goOn s answer => ⟨now, Command.ofLine text, answer⟩ :: s.answers rest
    | .quit | .garbled _ => []
  | .crossed now key _ :: rest =>
    match (s.catchUp now).seeAround (fun seen => (seen.sweep now).2) now key with
    | (.lines answer, s) => ⟨now, .seen key, answer⟩ :: s.answers rest
    | (.farewell, _) => []
  | .sweep now :: rest => answers { s with seen := (s.seen.sweep now).2 } rest

/-- The answers that a session gives about a key. -/
def repliesTo (key : String) (s : Session) (occurrences : List Occurrence) : List Answered :=
  (s.answers occurrences).filter (Answered.isAbout key)

end Session

/-- The answer about a key is what it has to be after some answers about it. -/
structure Exact (lifetime : Nat) (before : List Answered) (a : Answered) : Prop where
  told : a.answer = ["seen"] ∨ a.answer = ["new"]
  seen_iff : a.answer = ["seen"] ↔
    ∃ b ∈ before, b.answer = ["new"] ∧ a.instant - b.instant < lifetime

/-- So are all answers of a list, each after those before it. -/
def AllExact (lifetime : Nat) (before : List Answered) : List Answered → Prop
  | [] => True
  | a :: rest => Exact lifetime before a ∧ AllExact lifetime (before ++ [a]) rest

variable {lifetime : Nat}

/-- If all answers are exact, each is by what came before it. -/
theorem AllExact.of_split {earlier after : List Answered} {a : Answered} :
    ∀ {before : List Answered}, AllExact lifetime before (earlier ++ a :: after) →
      Exact lifetime (before ++ earlier) a := by
  induction earlier with
  | nil =>
    intro before h
    rw [List.append_nil]
    exact h.1
  | cons b earlier ih =>
    intro before h
    rw [List.append_cons]
    exact ih h.2

/-- There is one exact answer at an instant. -/
theorem Exact.answer_unique {before : List Answered} {a b : Answered}
    (h : Exact lifetime before a) (h' : Exact lifetime before b) (same : a.instant = b.instant) :
    a.answer = b.answer := by
  have hseen : a.answer = ["seen"] ↔ b.answer = ["seen"] := by
    rw [h.seen_iff, h'.seen_iff, same]
  rcases h.told with ha | ha
  · rw [ha, hseen.mp ha]
  · rcases h'.told with hb | hb
    · rw [hseen.mpr hb, hb]
    · rw [ha, hb]

/-- Two news are a lifetime apart. -/
theorem AllExact.news_apart {earlier after : List Answered} {a b : Answered}
    (h : AllExact lifetime [] (earlier ++ b :: after)) (mem : a ∈ earlier)
    (le : a.instant ≤ b.instant) (newA : a.answer = ["new"]) (newB : b.answer = ["new"]) :
    a.instant + lifetime ≤ b.instant := by
  have hexact : Exact lifetime earlier b := h.of_split
  have hunseen : b.answer ≠ ["seen"] := by
    rw [newB]
    decide
  have hstale : ¬b.instant - a.instant < lifetime := fun hrecent =>
    hunseen (hexact.seen_iff.mpr ⟨a, mem, newA, hrecent⟩)
  omega

/-- The instants at which a key is asked for decide the answers about it. -/
theorem AllExact.unique {command : Command} :
    ∀ {l l' before : List Answered}, AllExact lifetime before l → AllExact lifetime before l' →
      (∀ a ∈ l, a.command = command) → (∀ a ∈ l', a.command = command) →
        l.map Answered.instant = l'.map Answered.instant → l = l' := by
  intro l
  induction l with
  | nil => exact fun _ _ _ _ same => (List.map_eq_nil_iff.mp same.symm).symm
  | cons a rest ih =>
    intro l' before h h' hcommand hcommand' same
    cases l' with
    | nil => cases same
    | cons a' rest' =>
      obtain ⟨hinstant, hrest⟩ := List.cons.inj same
      obtain ⟨hfirst, hcommands⟩ := List.forall_mem_cons.mp hcommand
      obtain ⟨hfirst', hcommands'⟩ := List.forall_mem_cons.mp hcommand'
      have ha : a = a' := by
        have hanswer := h.1.answer_unique h'.1 hinstant
        cases a
        cases a'
        cases hinstant
        cases hanswer
        cases hfirst.trans hfirst'.symm
        rfl
      rw [ha] at h ⊢
      rw [ih h.2 h'.2 hcommands hcommands' hrest]

/-! ## The set and the answers -/

/-- The last sighting of a key counts for just as long as one of the answers about it is recent
news. -/
def Remembers (lifetime : Nat) (key : String) (before : List Answered) (now : Nat)
    (seen : ExpiringSet) : Prop :=
  ∃ history, Tracks lifetime history now seen ∧ ∀ later, now ≤ later →
    (((lastSighting lifetime history key).any fun sighting =>
        later - sighting.seenAt < sighting.lifetime) = true ↔
      ∃ b ∈ before, b.answer = ["new"] ∧ later - b.instant < lifetime)

variable {key : String} {before : List Answered} {now : Nat} {seen : ExpiringSet}

theorem remembers_empty (lifetime : Nat) (key : String) :
    Remembers lifetime key [] 0 (.empty lifetime) := by
  refine ⟨[], tracks_empty lifetime 0, fun later _ => ⟨fun h => ?_, ?_⟩⟩
  · cases h
  · rintro ⟨b, hb, _⟩
    cases hb

/-- It is the same answers that are remembered in a set that tracks the same. -/
theorem Remembers.of_tracks (h : Remembers lifetime key before now seen) {later : Nat}
    (le : now ≤ later) {seen' : ExpiringSet}
    (tracks : ∀ history, Tracks lifetime history later seen →
      Tracks lifetime history later seen') :
    Remembers lifetime key before later seen' := by
  obtain ⟨history, htracks, hrecent⟩ := h
  exact ⟨history, tracks history (htracks.later le),
    fun instant hinstant => hrecent instant (Nat.le_trans le hinstant)⟩

theorem exists_mem_concat {a : Answered} {p : Answered → Prop} :
    (∃ b ∈ before ++ [a], p b) ↔ (∃ b ∈ before, p b) ∨ p a := by
  simp only [List.mem_append, List.mem_singleton, or_and_right, exists_or, exists_eq_left]

/-- A key that is seen was new less than a lifetime ago. -/
theorem Remembers.has_fst (h : Remembers lifetime key before now seen) :
    (seen.has now key).1 = true ↔
      ∃ b ∈ before, b.answer = ["new"] ∧ now - b.instant < lifetime := by
  obtain ⟨history, htracks, hrecent⟩ := h
  rw [htracks.has_fst key]
  exact hrecent now (Nat.le_refl now)

/-- An answer that is no news changes nothing. -/
theorem Remembers.concat_old (h : Remembers lifetime key before now seen) {a : Answered}
    (old : a.answer ≠ ["new"]) : Remembers lifetime key (before ++ [a]) now seen := by
  obtain ⟨history, htracks, hrecent⟩ := h
  refine ⟨history, htracks, fun later hlater => ?_⟩
  rw [hrecent later hlater, exists_mem_concat]
  exact ⟨.inl, fun hor => hor.resolve_right fun hnew => old hnew.1⟩

/-- What is new is remembered from now on; what was before it no longer matters, since it was not
recent. -/
theorem Remembers.concat_new (h : Remembers lifetime key before now seen) (named : key ≠ "")
    (unseen : (seen.has now key).1 = false) {seen' : ExpiringSet}
    (tracks : ∀ history, Tracks lifetime history now seen →
      Tracks lifetime (history ++ [⟨now, .add key⟩]) now seen')
    {a : Answered} (new : a.answer = ["new"]) (current : a.instant = now) :
    Remembers lifetime key (before ++ [a]) now seen' := by
  have hstale : ¬∃ b ∈ before, b.answer = ["new"] ∧ now - b.instant < lifetime := by
    rw [← h.has_fst, unseen]
    exact Bool.false_ne_true
  obtain ⟨history, htracks, _⟩ := h
  refine ⟨_, tracks history htracks, fun later hlater => ?_⟩
  have hmade : TimedCall.sighting? lifetime key ⟨now, .add key⟩ = some ⟨now, lifetime⟩ :=
    if_pos ⟨rfl, named⟩
  rw [lastSighting_concat history Operation.noConfusion, hmade, Option.some_or,
    exists_mem_concat, Option.any_some, decide_eq_true_eq, current]
  constructor
  · exact fun hrecent => .inr ⟨new, hrecent⟩
  · rintro (⟨b, hb, hnew, hrecent⟩ | ⟨_, hrecent⟩)
    · exact absurd ⟨b, hb, hnew, by omega⟩ hstale
    · exact hrecent

/-- Another key that is remembered does not matter. -/
theorem Remembers.other (h : Remembers lifetime key before now seen) {asked : String}
    (other : asked ≠ key) {seen' : ExpiringSet}
    (tracks : ∀ history, Tracks lifetime history now seen →
      Tracks lifetime (history ++ [⟨now, .add asked⟩]) now seen') :
    Remembers lifetime key before now seen' := by
  obtain ⟨history, htracks, hrecent⟩ := h
  refine ⟨_, tracks history htracks, fun later hlater => ?_⟩
  have hnone : TimedCall.sighting? lifetime key ⟨now, .add asked⟩ = none :=
    if_neg fun hboth => other hboth.1
  rw [lastSighting_concat history Operation.noConfusion, hnone, Option.none_or]
  exact hrecent later hlater

/-! ## Each answer -/

/-- An answer is exact if it is about the key, and is remembered in that case. -/
structure Follows (lifetime : Nat) (key : String) (before : List Answered) (a : Answered)
    (seen : ExpiringSet) : Prop where
  exact : a.isAbout key = true → Exact lifetime before a
  remembers : Remembers lifetime key (before ++ [a].filter (Answered.isAbout key)) a.instant seen

/-- A command about something else changes nothing of what is remembered of the key. -/
theorem Follows.of_other {a : Answered} (other : a.isAbout key = false)
    (h : Remembers lifetime key before a.instant seen) : Follows lifetime key before a seen where
  exact same := nomatch other.symm.trans same
  remembers := by
    rw [List.filter_cons_of_neg (Bool.eq_false_iff.mp other), List.filter_nil, List.append_nil]
    exact h

/-- A command about the key is answered exactly and is remembered itself. -/
theorem Follows.of_same {a : Answered} (same : a.isAbout key = true)
    (exact : Exact lifetime before a)
    (h : Remembers lifetime key (before ++ [a]) a.instant seen) :
    Follows lifetime key before a seen where
  exact _ := exact
  remembers := by
    rw [List.filter_cons_of_pos same, List.filter_nil]
    exact h

/-- The empty text is not asked for. -/
theorem named_of_ofLine {text asked : String} (h : Command.ofLine text = .seen asked) :
    asked ≠ "" := by
  have hused : ∀ usage, Command.seen asked ≠ .misused usage := nofun
  unfold Command.ofLine at h
  dsimp only at h
  split at h
  · cases h
  · cases h
  · cases h
  · exact absurd h (onPair_ne hused nofun)
  · exact absurd h (onKey_ne hused nofun)
  · exact absurd h (onKey_ne hused nofun)
  · exact absurd h (onKey_ne hused nofun)
  · cases h
  · unfold Command.onKey at h
    split at h
    · cases h
    · next hargument =>
      rw [← Command.seen.inj h]
      exact fun hempty => hargument (List.isEmpty_iff.mpr (String.ofList_eq_empty_iff.mp hempty))
  · exact absurd h (onPair_ne hused nofun)
  · cases h
  · cases h

namespace Session

variable {s : Session} {between : ExpiringSet → ExpiringSet} {asked : String}

/-- A live key is not remembered anew. -/
theorem seeAround_live (live : (s.seen.has now asked).1 = true) :
    s.seeAround between now asked =
      (.line "seen", { s with seen := between (s.seen.has now asked).2 }) := by
  have hhas : s.seen.has now asked = (true, (s.seen.has now asked).2) := Prod.ext live rfl
  rw [seeAround, hhas]

/-- Only the empty name cannot be added. -/
theorem add_named (seen : ExpiringSet) (now : Nat) (named : asked ≠ "") :
    seen.add now asked = .ok (seen.perform now (.add asked)).2 := by
  rw [perform, add, remember, if_neg named]
  rfl

/-- What is not remembered is news, and is remembered from then on. -/
theorem seeAround_absent (named : asked ≠ "") (absent : (s.seen.has now asked).1 = false) :
    s.seeAround between now asked =
      (.line "new",
        { s with seen := ((between (s.seen.has now asked).2).perform now (.add asked)).2 }) := by
  have hhas : s.seen.has now asked = (false, (s.seen.has now asked).2) := Prod.ext absent rfl
  rw [seeAround, hhas]
  dsimp only
  rw [add_named _ now named]

/-- What is answered about a key follows from the answers before, whatever is done to the set in
between that leaves live keys alone. -/
theorem follows_seeAround (h : Remembers lifetime key before now s.seen)
    (keeps : ∀ history seen, Tracks lifetime history now seen →
      Tracks lifetime history now (between seen))
    (named : asked ≠ "") {answer : List String}
    (answered : (s.seeAround between now asked).1 = .lines answer) :
    Follows lifetime key before ⟨now, .seen asked, answer⟩
      (s.seeAround between now asked).2.seen := by
  have hkept : ∀ history, Tracks lifetime history now s.seen →
      Tracks lifetime history now (between (s.seen.has now asked).2) :=
    fun history tracks => keeps history _ (tracks.has asked)
  have hother : asked ≠ key → Answered.isAbout key ⟨now, .seen asked, answer⟩ = false :=
    fun hne => decide_eq_false fun heq => hne (Command.seen.inj heq)
  have hdiffer : ["seen"] ≠ ["new"] := by decide
  cases hlive : (s.seen.has now asked).1 with
  | true =>
    rw [seeAround_live hlive] at answered ⊢
    cases answered
    have hsame := h.of_tracks (Nat.le_refl now) hkept
    by_cases hkey : asked = key
    · subst hkey
      have hexact : Exact lifetime before ⟨now, .seen asked, ["seen"]⟩ :=
        ⟨.inl rfl, iff_of_true rfl (h.has_fst.mp hlive)⟩
      exact .of_same (decide_eq_true rfl) hexact (hsame.concat_old hdiffer)
    · exact .of_other (hother hkey) hsame
  | false =>
    rw [seeAround_absent named hlive] at answered ⊢
    cases answered
    have hadded : ∀ history, Tracks lifetime history now s.seen →
        Tracks lifetime (history ++ [⟨now, .add asked⟩]) now
          ((between (s.seen.has now asked).2).perform now (.add asked)).2 :=
      fun history tracks => (hkept history tracks).perform (.add asked)
    by_cases hkey : asked = key
    · subst hkey
      have hunseen : ¬∃ b ∈ before, b.answer = ["new"] ∧ now - b.instant < lifetime := by
        rw [← h.has_fst, hlive]
        exact Bool.false_ne_true
      have hexact : Exact lifetime before ⟨now, .seen asked, ["new"]⟩ :=
        ⟨.inr rfl, iff_of_false hdiffer.symm hunseen⟩
      exact .of_same (decide_eq_true rfl) hexact (h.concat_new named hlive hadded rfl rfl)
    · exact .of_other (hother hkey) (h.other hkey hadded)

/-- No other command touches the set. -/
theorem seen_respond (s : Session) (now : Nat) {command : Command}
    (other : ∀ asked, command ≠ .seen asked) : (s.respond now command).2.seen = s.seen := by
  cases command with
  | seen asked => exact absurd rfl (other asked)
  | get key =>
    rw [respond]
    split <;> rfl
  | hash algorithm data =>
    rw [respond]
    split <;> rfl
  | _ => rfl

/-- A command is answered, and remembered, by whether it is about the key. -/
theorem follows_respond (h : Remembers lifetime key before now s.seen) {command : Command}
    (named : ∀ asked, command = .seen asked → asked ≠ "") {answer : List String}
    (answered : (s.respond now command).1 = .lines answer) :
    Follows lifetime key before ⟨now, command, answer⟩ (s.respond now command).2.seen := by
  rcases Classical.em (∃ asked, command = .seen asked) with ⟨asked, rfl⟩ | hnone
  · -- the command does nothing in between
    have hanswered : (s.seeAround id now asked).1 = .lines answer := answered
    exact follows_seeAround h (fun _ _ tracks => tracks) (named asked rfl) hanswered
  · have hother : ∀ asked, command ≠ .seen asked := fun asked heq => hnone ⟨asked, heq⟩
    refine .of_other (decide_eq_false (hother key)) ?_
    rw [seen_respond s now hother]
    exact h

theorem remembers_catchUp (h : Remembers lifetime key before now s.seen) {later : Nat}
    (le : now ≤ later) : Remembers lifetime key before later (s.catchUp later).seen :=
  h.of_tracks le fun _ tracks => s.sweeper.tracks_catchUp s.seen (Nat.le_refl later) tracks

/-- A line is answered after the sweeps that are due. -/
theorem follows_take (h : Remembers lifetime key before now s.seen) {later : Nat}
    (le : now ≤ later) {text : String} {next : Session} {answer : List String}
    (took : s.take later (Bytes.ofString text) = .goOn next answer) :
    Follows lifetime key before ⟨later, Command.ofLine text, answer⟩ next.seen := by
  rw [take, Utf8.decode_ofString] at took
  dsimp only at took
  cases hrespond : (s.catchUp later).respond later (Command.ofLine text) with
  | mk response after =>
    rw [hrespond] at took
    cases response with
    | farewell => cases took
    | lines shown =>
      cases took
      have hanswered := congrArg Prod.fst hrespond
      have hfollows :=
        follows_respond (remembers_catchUp h le) (fun _ => named_of_ofLine) hanswered
      rw [hrespond] at hfollows
      exact hfollows

/-! ## Every answer -/

/-- An answer, and those that come after it. -/
theorem allExact_cons {a : Answered} {next : ExpiringSet} (h : Follows lifetime key before a next)
    {rest : List Answered}
    (later : AllExact lifetime (before ++ [a].filter (Answered.isAbout key))
      (rest.filter (Answered.isAbout key))) :
    AllExact lifetime before ((a :: rest).filter (Answered.isAbout key)) := by
  cases habout : a.isAbout key with
  | true =>
    rw [List.filter_cons_of_pos habout, List.filter_nil] at later
    rw [List.filter_cons_of_pos habout]
    exact ⟨h.exact habout, later⟩
  | false =>
    rw [List.filter_cons_of_neg (Bool.eq_false_iff.mp habout), List.filter_nil,
      List.append_nil] at later
    rw [List.filter_cons_of_neg (Bool.eq_false_iff.mp habout)]
    exact later

/-- What an occurrence leads to: the session ends, or it goes on with or without an answer that
follows from those before. -/
theorem answers_cons (h : Remembers lifetime key before now s.seen) {o : Occurrence}
    (le : now ≤ o.instant) (rest : List Occurrence) :
    s.answers (o :: rest) = [] ∨
      (∃ next : Session, Remembers lifetime key before o.instant next.seen ∧
        s.answers (o :: rest) = next.answers rest) ∨
      ∃ (a : Answered) (next : Session), a.instant = o.instant ∧
        Follows lifetime key before a next.seen ∧
          s.answers (o :: rest) = a :: next.answers rest := by
  cases o with
  | line instant text =>
    rw [answers]
    cases htook : s.take instant (Bytes.ofString text) with
    | goOn next answer => exact .inr (.inr ⟨_, next, rfl, follows_take h le htook, rfl⟩)
    | quit => exact .inl rfl
    | garbled fault => exact .inl rfl
  | crossed instant asked named =>
    have hswept : Remembers lifetime key before instant (s.catchUp instant).seen :=
      remembers_catchUp h le
    rw [answers]
    cases hsaw : (s.catchUp instant).seeAround (fun seen => (seen.sweep instant).2) instant
      asked with
    | mk response next =>
      cases response with
      | farewell => exact .inl rfl
      | lines answer =>
        have hanswered := congrArg Prod.fst hsaw
        have hfollows := follows_seeAround hswept
          (fun _ _ tracks => tracks.sweep (Nat.le_refl instant)) named hanswered
        rw [hsaw] at hfollows
        exact .inr (.inr ⟨_, next, rfl, hfollows, rfl⟩)
  | sweep instant =>
    have hswept := h.of_tracks le fun _ tracks => tracks.sweep (Nat.le_refl instant)
    exact .inr (.inl ⟨{ s with seen := (s.seen.sweep instant).2 }, hswept, rfl⟩)

/-- From where the answers about a key are remembered, all further ones are exact, and they are
given in the order of time. -/
theorem allExact_repliesTo (occurrences : List Occurrence) :
    ∀ (s : Session) (before : List Answered) (now : Nat),
      Remembers lifetime key before now s.seen → (∀ o ∈ occurrences, now ≤ o.instant) →
        Chronological occurrences →
          AllExact lifetime before (s.repliesTo key occurrences) ∧
            ((s.answers occurrences).map Answered.instant).Sublist
              (occurrences.map Occurrence.instant) := by
  induction occurrences with
  | nil => exact fun _ _ _ _ _ _ => ⟨trivial, .slnil⟩
  | cons o rest ih =>
    intro s before now h hfrom hordered
    obtain ⟨hlater, hrest⟩ := List.pairwise_cons.mp hordered
    have hnow := hfrom o List.mem_cons_self
    rw [repliesTo]
    rcases answers_cons h hnow rest with
      hend | ⟨next, hnext, hanswers⟩ | ⟨a, next, hinstant, hfollows, hanswers⟩
    · rw [hend]
      exact ⟨trivial, List.nil_sublist _⟩
    · obtain ⟨hexact, horder⟩ := ih next before o.instant hnext hlater hrest
      rw [hanswers]
      exact ⟨hexact, horder.cons _⟩
    · obtain ⟨hexact, horder⟩ := ih next _ o.instant (hinstant ▸ hfollows.remembers) hlater hrest
      rw [hanswers, List.map_cons, List.map_cons, hinstant]
      exact ⟨allExact_cons hfollows hexact, horder.cons_cons _⟩

/-- Where no key was seen before, all answers about a key are exact, and in the order of time. -/
theorem allExact_of_fresh (fresh : s.seen = .empty lifetime) {occurrences : List Occurrence}
    (ordered : Chronological occurrences) (key : String) :
    AllExact lifetime [] (s.repliesTo key occurrences) ∧
      (s.repliesTo key occurrences).Pairwise fun a b => a.instant ≤ b.instant := by
  have hstart : Remembers lifetime key [] 0 s.seen := fresh ▸ remembers_empty lifetime key
  obtain ⟨hexact, hsublist⟩ :=
    allExact_repliesTo occurrences s [] 0 hstart (fun o _ => Nat.zero_le _) ordered
  have hinstants := (List.pairwise_map.mpr ordered).sublist hsublist
  exact ⟨hexact, (List.pairwise_map.mp hinstants).sublist List.filter_sublist⟩

/-- The replies about a key are to commands that ask for it. -/
theorem command_of_mem_repliesTo {occurrences : List Occurrence} {a : Answered}
    (mem : a ∈ s.repliesTo key occurrences) : a.command = .seen key :=
  of_decide_eq_true (List.mem_filter.mp mem).2

/-- A session starts with no key seen. -/
theorem seen_start {options : Options} {order : Enumeration}
    (started : start options now order = .ok s) :
    s.seen = .empty options.seenLifetime := by
  obtain ⟨tiers, _, rfl⟩ := Cache.eq_ok_of_map started
  rfl

/-- **A key is new once in a lifetime.** Take a session whose set remembers keys for a lifetime and
has none yet, and let lines be read and sweeps take place at any instants in their order, also in
the middle of asking for a key. An answer about a key is `seen` if an earlier one was `new` less
than a lifetime ago, and `new` otherwise. So news of a key are a lifetime apart, however often it
was seen between; and any other such session that is asked for the key at the same instants answers
the same, whatever else it is told and whenever its set is swept. -/
theorem replies_of_sightings {s : Session} (fresh : s.seen = .empty lifetime)
    {occurrences : List Occurrence} (ordered : Chronological occurrences) (key : String) :
    let replies := s.repliesTo key occurrences
    (∀ before a after, replies = before ++ a :: after →
        (a.answer = ["seen"] ∨ a.answer = ["new"]) ∧
          (a.answer = ["seen"] ↔
            ∃ b ∈ before, b.answer = ["new"] ∧ a.instant - b.instant < lifetime)) ∧
      (∀ before a between b after, replies = before ++ a :: between ++ b :: after →
        a.answer = ["new"] → b.answer = ["new"] → a.instant + lifetime ≤ b.instant) ∧
      ∀ {s' : Session} {occurrences' : List Occurrence}, s'.seen = .empty lifetime →
        Chronological occurrences' →
          (s'.repliesTo key occurrences').map Answered.instant = replies.map Answered.instant →
            s'.repliesTo key occurrences' = replies := by
  intro replies
  obtain ⟨hexact, hordered⟩ := allExact_of_fresh fresh ordered key
  refine ⟨fun before a after hreplies => ?_, fun before a between b after hreplies ha hb => ?_,
    fun fresh' ordered' same => ?_⟩
  · have hall : AllExact lifetime [] replies := hexact
    rw [hreplies] at hall
    have htold : Exact lifetime before a := hall.of_split
    exact ⟨htold.told, htold.seen_iff⟩
  · have hmem : a ∈ before ++ a :: between := List.mem_append_right _ List.mem_cons_self
    have hall : AllExact lifetime [] replies := hexact
    have hsorted : replies.Pairwise fun a b => a.instant ≤ b.instant := hordered
    rw [hreplies] at hall hsorted
    have hlater := (List.pairwise_append.mp hsorted).2.2 a hmem b List.mem_cons_self
    exact hall.news_apart hmem hlater ha hb
  · exact (allExact_of_fresh fresh' ordered' key).1.unique hexact
      (fun _ => command_of_mem_repliesTo) (fun _ => command_of_mem_repliesTo) same

/-- A key that is seen once more is new again right at the end of its lifetime. The session's own
sweeps come at 100 and at 300 milliseconds, and others besides. -/
theorem replies_of_sightings_renewed :
    let lifetime := 200 * Span.millisecond
    let occurrences : List Occurrence :=
      [.line 0 "SEEN a", .line (150 * Span.millisecond) " seen  a",
        .crossed (160 * Span.millisecond) "b" (by decide), .sweep (200 * Span.millisecond),
        .line (200 * Span.millisecond) "SEEN a", .line (200 * Span.millisecond) "PUT a 1",
        .crossed (350 * Span.millisecond) "a" (by decide)]
    let news : Answered := ⟨0, .seen "a", ["new"]⟩
    let again : Answered := ⟨200 * Span.millisecond, .seen "a", ["new"]⟩
    ∃ session, Session.start { seenLifetime := lifetime } 0 = .ok session ∧
      session.repliesTo "a" occurrences =
        [news, ⟨150 * Span.millisecond, .seen "a", ["seen"]⟩, again,
          ⟨350 * Span.millisecond, .seen "a", ["seen"]⟩] ∧
      news.instant + lifetime ≤ again.instant := by
  intro lifetime occurrences news again
  have hordered : Chronological occurrences := by decide
  obtain ⟨session, hstart, hreplies⟩ :
      ∃ session, Session.start { seenLifetime := lifetime } 0 = .ok session ∧
        session.repliesTo "a" occurrences =
          [news, ⟨150 * Span.millisecond, .seen "a", ["seen"]⟩, again,
            ⟨350 * Span.millisecond, .seen "a", ["seen"]⟩] :=
    ⟨_, rfl, by decide +kernel⟩
  have hlaw := replies_of_sightings (seen_start hstart) hordered "a"
  exact ⟨session, hstart, hreplies, hlaw.2.1 [] news [_] again [_] hreplies rfl rfl⟩

end Session

end TieredStore.Shell
