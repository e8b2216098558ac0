import TieredStore.Backing.Patience

/-!
# How an opening ends

An opener may do anything to the world at each attempt. What it answers, attempt after attempt at
one path, is a sequence of outcomes (`Patience.outcomeOf`), and an outcome *decides* when the store
is open or the fault lies in the settings. The opening ends at the first outcome that decides or, if
the attempts are used up before, at the last one: that outcome is the answer, and the pauses lie
between the attempts and nowhere else.

**The law** is `Patience.endsAfter_tryOpen`. It is proved of the number of the last attempt
(`Patience.IsLast`), by induction on the further attempts that are left: an outcome that does not
decide shifts the sequence by one.
-/

namespace TieredStore.Patience

variable {ω α : Type}

/-- Whether no attempt is made after this outcome, however many are left: the store is open, or
the settings are at fault. -/
def decides : Except Failure α → Bool
  | .ok _ => true
  | .error failure => failure.isConfiguration

/-- The world after so many attempts at a path. -/
def worldAfter (create : String → ω → Except Failure α × ω) (path : String) (world : ω) : Nat → ω
  | 0 => world
  | attempts + 1 => (create path (worldAfter create path world attempts)).2

/-- What the attempt of a number comes to, the first one being number one. -/
def outcomeOf (create : String → ω → Except Failure α × ω) (path : String) (world : ω)
    (number : Nat) : Except Failure α :=
  (create path (worldAfter create path world (number - 1))).1

/-- The opening ended after so many attempts: the last outcome is the answer, the world is left as
those attempts made it, and there was a pause between any two of them and no other. -/
structure EndsAfter (create : String → ω → Except Failure α × ω) (path : String) (world : ω)
    (pause : Nat) (opened : Opened ω α) (attempts : Nat) : Prop where
  outcome : opened.outcome = outcomeOf create path world attempts
  world : opened.world = worldAfter create path world attempts
  events : opened.events = (List.replicate attempts (.attempt path)).intersperse (.pause pause)

/-- The attempt is the last one that a limit allows, or decides, and none before it does. -/
structure IsLast (outcome : Nat → Except Failure α) (limit number : Nat) : Prop where
  positive : 1 ≤ number
  within : number ≤ limit
  undecided : ∀ i, 1 ≤ i → i < number → decides (outcome i) = false
  ends : number = limit ∨ decides (outcome number) = true

/-! ## After the first attempt -/

section Shift

variable (create : String → ω → Except Failure α × ω) (path : String) (world : ω)

/-- What follows the first attempt follows the world that it left. -/
theorem worldAfter_succ (attempts : Nat) :
    worldAfter create path world (attempts + 1) =
      worldAfter create path (create path world).2 attempts := by
  induction attempts with
  | zero => rfl
  | succ attempts ih => rw [worldAfter, ih, worldAfter]

theorem outcomeOf_succ {number : Nat} (positive : 1 ≤ number) :
    outcomeOf create path world (number + 1) =
      outcomeOf create path (create path world).2 number := by
  obtain ⟨before, rfl⟩ := Nat.exists_eq_add_of_le' positive
  rw [outcomeOf, outcomeOf, Nat.add_sub_cancel, Nat.add_sub_cancel, worldAfter_succ]

variable {create path world}

/-- The last attempt, counted from the second one on. -/
theorem IsLast.tail {limit number : Nat}
    (h : IsLast (outcomeOf create path world) (limit + 1) (number + 1)) (positive : 1 ≤ number) :
    IsLast (outcomeOf create path (create path world).2) limit number where
  positive := positive
  within := Nat.le_of_succ_le_succ h.within
  undecided i hi hlt := by
    rw [← outcomeOf_succ create path world hi]
    exact h.undecided (i + 1) (Nat.le_add_left 1 i) (Nat.succ_lt_succ hlt)
  ends := by
    rw [← outcomeOf_succ create path world positive]
    exact h.ends.imp_left Nat.succ.inj

end Shift

/-! ## The attempts in turn -/

section Attempts

variable {create : String → ω → Except Failure α × ω} {path : String} {pause : Nat}

/-- A single attempt. -/
theorem endsAfter_one (world : ω) :
    EndsAfter create path world pause
      ⟨(create path world).1, [.attempt path], (create path world).2⟩ 1 :=
  ⟨rfl, rfl, rfl⟩

/-- With no attempt left, or an outcome that decides, there is no second attempt. -/
theorem attemptWith_decided {more : Nat} {world : ω}
    (ends : more = 0 ∨ decides (create path world).1 = true) :
    attemptWith pause path create more world =
      ⟨(create path world).1, [.attempt path], (create path world).2⟩ := by
  cases more with
  | zero => rfl
  | succ more =>
    obtain hzero | hdecides := ends
    · cases hzero
    · rw [attemptWith]
      cases hcreate : create path world with
      | mk outcome after =>
        cases outcome with
        | ok store => rfl
        | error failure =>
          rw [hcreate, decides] at hdecides
          simp only [hdecides, if_true]

/-- After an outcome that does not decide there is a pause, and then all the rest. -/
theorem attemptWith_undecided {more : Nat} {world : ω}
    (undecided : decides (create path world).1 = false) :
    attemptWith pause path create (more + 1) world =
      let later := attemptWith pause path create more (create path world).2
      { later with events := .attempt path :: .pause pause :: later.events } := by
  rw [attemptWith]
  cases hcreate : create path world with
  | mk outcome after =>
    rw [hcreate] at undecided
    cases outcome with
    | ok store => cases undecided
    | error failure =>
      rw [decides] at undecided
      simp only [undecided, Bool.false_eq_true, if_false]

/-- One more attempt in front, and a pause after it. -/
theorem EndsAfter.later {world : ω} {opened : Opened ω α} {attempts : Nat}
    (h : EndsAfter create path (create path world).2 pause opened attempts)
    (positive : 1 ≤ attempts) :
    EndsAfter create path world pause
      { opened with events := .attempt path :: .pause pause :: opened.events } (attempts + 1) where
  outcome := by
    rw [outcomeOf_succ create path world positive]
    exact h.outcome
  world := by
    rw [worldAfter_succ]
    exact h.world
  events := by
    obtain ⟨before, rfl⟩ := Nat.exists_eq_add_of_le' positive
    rw [List.replicate_succ, List.replicate_succ, List.intersperse_cons_cons, ← List.replicate_succ,
      ← h.events]

/-- The opening ends after the last attempt. -/
theorem endsAfter_attemptWith (more : Nat) :
    ∀ (world : ω) (number : Nat), IsLast (outcomeOf create path world) (more + 1) number →
      EndsAfter create path world pause (attemptWith pause path create more world) number := by
  induction more with
  | zero =>
    intro world number last
    have hone : number = 1 := Nat.le_antisymm last.within last.positive
    rw [hone, attemptWith_decided (.inl rfl)]
    exact endsAfter_one world
  | succ more ih =>
    intro world number last
    obtain ⟨before, rfl⟩ := Nat.exists_eq_add_of_le' last.positive
    cases before with
    | zero =>
      -- one attempt of several that were allowed, so it decides
      have hdecides : decides (create path world).1 = true :=
        last.ends.resolve_left fun heq => by omega
      rw [attemptWith_decided (.inr hdecides)]
      exact endsAfter_one world
    | succ before =>
      have hfirst : decides (create path world).1 = false :=
        last.undecided 1 (Nat.le_refl 1) (by omega)
      have hpositive : 1 ≤ before + 1 := Nat.le_add_left 1 before
      rw [attemptWith_undecided hfirst]
      exact (ih _ _ (last.tail hpositive)).later hpositive

/-- With patience for `limit` attempts, at least one. -/
theorem endsAfter_of_isLast (patience : Patience) {world : ω} {number : Nat}
    (last : IsLast (outcomeOf create path world) (max 1 patience.attempts) number) :
    EndsAfter create path world patience.pause (patience.tryOpen path create world) number := by
  have hlimit : max 1 patience.attempts = patience.attempts - 1 + 1 := by omega
  rw [hlimit] at last
  exact endsAfter_attemptWith _ world number last

/-- The attempts and the pauses in what happened, one pause fewer. -/
theorem EndsAfter.count {world : ω} {opened : Opened ω α} {attempts : Nat}
    (h : EndsAfter create path world pause opened attempts) :
    opened.events.count (.attempt path) = attempts ∧
      opened.events.count (.pause pause) = attempts - 1 := by
  rw [h.events]
  clear h
  induction attempts with
  | zero => exact ⟨rfl, rfl⟩
  | succ attempts ih =>
    cases attempts with
    | zero => simp
    | succ attempts =>
      rw [List.replicate_succ, List.replicate_succ, List.intersperse_cons_cons,
        ← List.replicate_succ]
      simp only [List.count_cons, ih.1, ih.2]
      simp

end Attempts

/-! ## Which attempt is the last -/

section Last

variable {outcome : Nat → Except Failure α} {limit : Nat}

/-- The first outcome that decides ends the opening, unless the attempts are used up before. -/
theorem isLast_of_first (allowed : 1 ≤ limit) {first : Nat} (positive : 1 ≤ first)
    (decisive : decides (outcome first) = true)
    (undecided : ∀ i, 1 ≤ i → i < first → decides (outcome i) = false) :
    IsLast outcome limit (min first limit) where
  positive := Nat.le_min.mpr ⟨positive, allowed⟩
  within := Nat.min_le_right first limit
  undecided i hi hlt := undecided i hi (Nat.lt_of_lt_of_le hlt (Nat.min_le_left first limit))
  ends := by
    by_cases hle : first ≤ limit
    · rw [Nat.min_eq_left hle]
      exact .inr decisive
    · exact .inl (Nat.min_eq_right (Nat.le_of_not_le hle))

theorem isLast_of_undecided (allowed : 1 ≤ limit)
    (undecided : ∀ i, 1 ≤ i → decides (outcome i) = false) : IsLast outcome limit limit where
  positive := allowed
  within := Nat.le_refl limit
  undecided i hi _ := undecided i hi
  ends := .inl rfl

/-- There is always a last attempt. -/
theorem exists_isLast (outcome : Nat → Except Failure α) (more : Nat) :
    ∃ number, IsLast outcome (more + 1) number := by
  induction more with
  | zero => exact ⟨1, Nat.le_refl 1, Nat.le_refl 1, fun i hi hlt => by omega, .inl rfl⟩
  | succ more ih =>
    obtain ⟨number, last⟩ := ih
    cases hdecides : decides (outcome number) with
    | true =>
      exact ⟨number, last.positive, Nat.le_succ_of_le last.within, last.undecided, .inr hdecides⟩
    | false =>
      -- the limit was what ended it, so one attempt more is the last
      have hnumber : number = more + 1 := last.ends.resolve_right (by simp [hdecides])
      refine ⟨more + 2, Nat.le_add_left 1 _, Nat.le_refl _, fun i hi hlt => ?_, .inl rfl⟩
      by_cases hi' : i = number
      · rw [hi']
        exact hdecides
      · exact last.undecided i hi (by omega)

end Last

/-! ## Openers by their outcomes -/

/-- An opener whose calls come to a sequence of outcomes, the first call being number one, and
which writes down the path of each call. -/
def recorded (outcomes : Nat → Except Failure α) (path : String) (asked : List String) :
    Except Failure α × List String :=
  (outcomes (asked.length + 1), asked ++ [path])

theorem worldAfter_recorded (outcomes : Nat → Except Failure α) (path : String) (attempts : Nat) :
    worldAfter (recorded outcomes) path [] attempts = List.replicate attempts path := by
  induction attempts with
  | zero => rfl
  | succ attempts ih => rw [worldAfter, ih, recorded, List.replicate_succ']

theorem outcomeOf_recorded (outcomes : Nat → Except Failure α) (path : String) {number : Nat}
    (positive : 1 ≤ number) : outcomeOf (recorded outcomes) path [] number = outcomes number := by
  rw [outcomeOf, worldAfter_recorded, recorded, List.length_replicate, Nat.sub_add_cancel positive]

/-- **An opening ends at the first outcome that decides, or at the last attempt.** Let an opener
answer with any outcomes, attempt after attempt. If the outcome of number `j` is the first that
decides, the opening takes `min j limit` attempts, and if none decides it takes all that the limit
allows, which is at least one. The answer is the outcome of the last attempt made; every attempt
was made at the path, and the pauses, all of the length asked for, lie between the attempts. So
there is always a last attempt, and where an opener writes down what it is asked, it was asked for
the path once for each attempt. Every sequence of outcomes is that of such an opener. -/
theorem endsAfter_tryOpen (patience : Patience) (path : String)
    (create : String → ω → Except Failure α × ω) (world : ω) :
    let limit := max 1 patience.attempts
    let outcome := outcomeOf create path world
    let opened := patience.tryOpen path create world
    (∀ j, 1 ≤ j → decides (outcome j) = true →
        (∀ i, 1 ≤ i → i < j → decides (outcome i) = false) →
          EndsAfter create path world patience.pause opened (min j limit)) ∧
      ((∀ i, 1 ≤ i → decides (outcome i) = false) →
        EndsAfter create path world patience.pause opened limit) ∧
      (∃ attempts, 1 ≤ attempts ∧ attempts ≤ limit ∧
        EndsAfter create path world patience.pause opened attempts) ∧
      (∀ attempts, EndsAfter create path world patience.pause opened attempts →
        opened.events.count (.attempt path) = attempts ∧
          opened.events.count (.pause patience.pause) = attempts - 1) ∧
      ∀ (outcomes : Nat → Except Failure α) (number : Nat), 1 ≤ number →
        outcomeOf (recorded outcomes) path [] number = outcomes number ∧
          worldAfter (recorded outcomes) path [] number = List.replicate number path := by
  intro limit outcome opened
  have hallowed : 1 ≤ limit := Nat.le_max_left 1 patience.attempts
  refine ⟨?_, ?_, ?_, fun attempts hends => hends.count, ?_⟩
  · intro j hpositive hdecisive hundecided
    exact endsAfter_of_isLast patience
      (isLast_of_first hallowed hpositive hdecisive hundecided)
  · intro hundecided
    exact endsAfter_of_isLast patience (isLast_of_undecided hallowed hundecided)
  · obtain ⟨more, hmore⟩ := Nat.exists_eq_add_of_le' hallowed
    obtain ⟨attempts, last⟩ := exists_isLast outcome more
    rw [← hmore] at last
    exact ⟨attempts, last.positive, last.within, endsAfter_of_isLast patience last⟩
  · intro outcomes number hpositive
    exact ⟨outcomeOf_recorded outcomes path hpositive, worldAfter_recorded outcomes path number⟩

/-- A fault in the settings at the second of five attempts is the answer, after one pause; without
patience, the first outcome is the answer and there is no pause. -/
theorem endsAfter_tryOpen_misconfigured :
    let outcomes : Nat → Except Failure Unit := fun number =>
      if number = 2 then .error (.unknownStoreKind "LvlDB") else .error (.io "lock held")
    let opened := tryOpen ⟨5, 7⟩ "blocks" (recorded outcomes) []
    let hurried := tryOpen ⟨0, 7⟩ "blocks" (recorded outcomes) []
    opened.outcome = .error (.unknownStoreKind "LvlDB") ∧ opened.world = ["blocks", "blocks"] ∧
      opened.events = [.attempt "blocks", .pause 7, .attempt "blocks"] ∧
      hurried.outcome = .error (.io "lock held") ∧ hurried.events = [.attempt "blocks"] := by
  intro outcomes opened hurried
  have hlast := (endsAfter_tryOpen ⟨5, 7⟩ "blocks" (recorded outcomes) []).1 2 (by decide) rfl
    fun i hpositive hlt => by
      obtain rfl : i = 1 := by omega
      rfl
  have honly := (endsAfter_tryOpen ⟨0, 7⟩ "blocks" (recorded outcomes) []).1 2 (by decide) rfl
    fun i hpositive hlt => by
      obtain rfl : i = 1 := by omega
      rfl
  exact ⟨hlast.outcome, hlast.world, hlast.events, honly.outcome, honly.events⟩

end TieredStore.Patience
