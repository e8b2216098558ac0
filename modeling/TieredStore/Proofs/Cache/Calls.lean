import TieredStore.Cache.Engine

/-!
# Sequences of cache calls

What a client sees of a cache is the answers to its calls. `CacheEngine.performAll` makes calls in
turn and collects the answers, for every engine alike, so two caches can be compared that keep
their entries in different ways.

**The law** (`performAll_agree`): if a relation between two caches is kept by every call, and
related caches give the same answer to it, then related caches give the same answers to every
sequence of calls and are related after it. `performAll_keeps` is the same for what holds of one
cache. The widest of these relations is to be told apart by no sequence of calls (`Alike`,
`simulates_alike`).
-/

namespace TieredStore

/-- A call that a client makes to a cache. -/
inductive CacheCall
  | put (key value : Bytes) (size : Nat)
  | get (key : Bytes)
  | peek (key : Bytes)
  | has (key : Bytes)
  | remove (key : Bytes)
  | clear
  | keys
  | size
  | byteSize
  | capacity
  deriving DecidableEq, Repr

/-- What a cache answers. -/
inductive CacheAnswer
  | evicted (any : Bool)
  | value (found : Option Bytes)
  | held (yes : Bool)
  | keys (all : List Bytes)
  /-- A number of entries or of bytes. -/
  | count (number : Nat)
  | done
  deriving DecidableEq, Repr

/-- The answers that the chosen ones among some calls were given. -/
def answersTo (chosen : CacheCall → Bool) (calls : List CacheCall) (answers : List CacheAnswer) :
    List CacheAnswer :=
  ((calls.zip answers).filter fun p => chosen p.1).map Prod.snd

/-- The first answer is among those to the chosen calls if the first call is chosen. -/
theorem answersTo_cons (chosen : CacheCall → Bool) (call : CacheCall) (calls : List CacheCall)
    (answer : CacheAnswer) (answers : List CacheAnswer) :
    answersTo chosen (call :: calls) (answer :: answers) =
      if chosen call then answer :: answersTo chosen calls answers
      else answersTo chosen calls answers := by
  rw [answersTo, List.zip_cons_cons, List.filter_cons]
  split <;> rfl

/-- Where all calls are chosen, so are all answers. -/
theorem answersTo_all {chosen : CacheCall → Bool} {calls : List CacheCall}
    {answers : List CacheAnswer} (all : ∀ call ∈ calls, chosen call = true)
    (length : answers.length = calls.length) : answersTo chosen calls answers = answers := by
  rw [answersTo, List.filter_eq_self.mpr fun p hp => all p.1 (List.of_mem_zip hp).1]
  exact List.map_snd_zip (Nat.le_of_eq length)

namespace CacheEngine

variable {κ μ : Type} [CacheEngine κ] [CacheEngine μ]

/-- Makes a call. -/
def perform (c : κ) : CacheCall → CacheAnswer × κ
  | .put key value size => (put c key value size).map .evicted id
  | .get key => (get c key).map .value id
  | .peek key => (.value (peek c key), c)
  | .has key => (.held (has c key), c)
  | .remove key => (.done, remove c key)
  | .clear => (.done, clear c)
  | .keys => (.keys (keys c), c)
  | .size => (.count (size c), c)
  | .byteSize => (.count (byteSize c), c)
  | .capacity => (.count (capacity c), c)

/-- Makes calls in turn. -/
def performAll (c : κ) : List CacheCall → List CacheAnswer × κ
  | [] => ([], c)
  | call :: rest =>
    let (answer, c) := perform c call
    (performAll c rest).map (answer :: ·) id

theorem performAll_cons (c : κ) (call : CacheCall) (rest : List CacheCall) :
    performAll c (call :: rest) =
      ((perform c call).1 :: (performAll (perform c call).2 rest).1,
        (performAll (perform c call).2 rest).2) :=
  rfl

/-- Calls made in two goes are the calls made at once. -/
theorem performAll_append (c : κ) (calls rest : List CacheCall) :
    performAll c (calls ++ rest) =
      ((performAll c calls).1 ++ (performAll (performAll c calls).2 rest).1,
        (performAll (performAll c calls).2 rest).2) := by
  induction calls generalizing c with
  | nil => rfl
  | cons call calls ih => rw [List.cons_append, performAll_cons, performAll_cons, ih, List.cons_append]

/-- Every call has an answer. -/
theorem length_performAll (c : κ) (calls : List CacheCall) :
    (performAll c calls).1.length = calls.length := by
  induction calls generalizing c with
  | nil => rfl
  | cons call rest ih => rw [performAll_cons, List.length_cons, List.length_cons, ih]

/-- What every call keeps, every sequence of calls keeps. -/
theorem performAll_keeps {I : κ → Prop} (step : ∀ c, I c → ∀ call, I (perform c call).2)
    (calls : List CacheCall) : ∀ c : κ, I c → I (performAll c calls).2 := by
  induction calls with
  | nil => exact fun c h => h
  | cons call rest ih =>
    intro c h
    rw [performAll_cons]
    exact ih _ (step c h call)

/-- A relation that every call keeps, every sequence of calls keeps, whatever the answers. -/
theorem performAll_relate {R : κ → μ → Prop}
    (step : ∀ c d, R c d → ∀ call, R (perform c call).2 (perform d call).2)
    (calls : List CacheCall) : ∀ (c : κ) (d : μ), R c d →
      R (performAll c calls).2 (performAll d calls).2 := by
  induction calls with
  | nil => exact fun c d h => h
  | cons call rest ih =>
    intro c d h
    rw [performAll_cons, performAll_cons]
    exact ih _ _ (step c d h call)

/-- Caches that agree on each call agree on every sequence of calls. -/
theorem performAll_agree {R : κ → μ → Prop}
    (step : ∀ c d, R c d → ∀ call,
      (perform c call).1 = (perform d call).1 ∧ R (perform c call).2 (perform d call).2)
    (calls : List CacheCall) : ∀ (c : κ) (d : μ), R c d →
      (performAll c calls).1 = (performAll d calls).1 ∧
        R (performAll c calls).2 (performAll d calls).2 := by
  induction calls with
  | nil => exact fun c d h => ⟨rfl, h⟩
  | cons call rest ih =>
    intro c d h
    obtain ⟨hanswer, hnext⟩ := step c d h call
    obtain ⟨hanswers, hlast⟩ := ih _ _ hnext
    rw [performAll_cons, performAll_cons]
    exact ⟨by rw [hanswer, hanswers], hlast⟩

/-- Caches that agree on each of the chosen calls agree on all of them, whatever else is called. -/
theorem performAll_agreeOn {R : κ → μ → Prop} {chosen : CacheCall → Bool}
    (step : ∀ c d, R c d → ∀ call,
      (chosen call = true → (perform c call).1 = (perform d call).1) ∧
        R (perform c call).2 (perform d call).2)
    (calls : List CacheCall) : ∀ (c : κ) (d : μ), R c d →
      answersTo chosen calls (performAll c calls).1 =
          answersTo chosen calls (performAll d calls).1 ∧
        R (performAll c calls).2 (performAll d calls).2 := by
  induction calls with
  | nil => exact fun c d h => ⟨rfl, h⟩
  | cons call rest ih =>
    intro c d h
    obtain ⟨hanswer, hnext⟩ := step c d h call
    obtain ⟨hanswers, hlast⟩ := ih _ _ hnext
    rw [performAll_cons, performAll_cons, answersTo_cons, answersTo_cons, hanswers]
    refine ⟨?_, hlast⟩
    cases hchosen : chosen call with
    | true => rw [if_pos rfl, if_pos rfl, hanswer hchosen]
    | false => rfl

/-- Related caches give equal answers to every call and stay related. -/
def Simulates (R : κ → μ → Prop) : Prop :=
  ∀ {c d}, R c d → ∀ call,
    (perform c call).1 = (perform d call).1 ∧ R (perform c call).2 (perform d call).2

theorem simulates_eq : Simulates (Eq : κ → κ → Prop) := by
  rintro c _ rfl call
  exact ⟨rfl, rfl⟩

/-- No sequence of calls tells two caches apart. -/
def Alike (c : κ) (d : μ) : Prop :=
  ∀ calls, (performAll c calls).1 = (performAll d calls).1

/-- Whatever tells two caches apart after a call tells them apart before it, with that call in
front. -/
theorem Alike.perform {c : κ} {d : μ} (h : Alike c d) (call : CacheCall) :
    (perform c call).1 = (perform d call).1 ∧
      Alike (CacheEngine.perform c call).2 (CacheEngine.perform d call).2 :=
  ⟨(List.cons.inj (h [call])).1, fun rest => (List.cons.inj (h (call :: rest))).2⟩

/-- To be alike is a simulation, and every other one is a part of it. -/
theorem simulates_alike : Simulates (Alike : κ → μ → Prop) :=
  fun h call => h.perform call

end CacheEngine

end TieredStore
