import TieredStore.Proofs.Cache.Calls
import TieredStore.Tiers

/-!
# Clients of tiers

A client makes calls in turn; among them are walks, whose visitor is a client too and may make any
calls, further walks among them, at every pair it is handed. What it calls and whether it goes on
may depend on all that has happened: the answers to the calls and the pairs visited, which are the
events of the run. `Client.performAll` is such a run. It is defined for every `Storer`, so tiers can
be compared with something simpler.

**The laws**: what each call keeps, and a walk whose visitor keeps it, every run keeps
(`Storer.Keeps.performAll`); and where two storers give equal answers to related calls, equal
clients see equal events (`Storer.Simulates.performAll`). What tiers do to their cache are calls to
it, in which a value counts for its length, so what every such call keeps of a cache, every run of
the tiers keeps (`Tiers.keeps_measured`, `Tiers.keeps_cache`).
-/

namespace TieredStore

/-- What a visitor keeps, a walk keeps. -/
theorem visitWhile_keeps {α τ : Type} {I : τ → Prop} {visit : α → τ → Bool × τ}
    (step : ∀ a x, I x → I (visit a x).2) : ∀ (l : List α) (x : τ), I x → I (visitWhile visit l x) := by
  intro l
  induction l with
  | nil => exact fun x h => h
  | cons a rest ih =>
    intro x h
    have hnext := step a x h
    rw [visitWhile]
    split
    · next heq => rw [heq] at hnext; exact ih _ hnext
    · next heq => rw [heq] at hnext; exact hnext

/-- Visitors that go on alike, and keep their states related, end with related states. -/
theorem visitWhile_agree {α τ υ : Type} {R : τ → υ → Prop} {visit : α → τ → Bool × τ}
    {visit' : α → υ → Bool × υ}
    (step : ∀ a x y, R x y → (visit a x).1 = (visit' a y).1 ∧ R (visit a x).2 (visit' a y).2) :
    ∀ (l : List α) (x : τ) (y : υ), R x y → R (visitWhile visit l x) (visitWhile visit' l y) := by
  intro l
  induction l with
  | nil => exact fun x y h => h
  | cons a rest ih =>
    intro x y h
    obtain ⟨hmore, hnext⟩ := step a x y h
    rw [visitWhile, visitWhile]
    cases hx : visit a x with
    | mk more x' =>
      cases hy : visit' a y with
      | mk more' y' =>
        rw [hx, hy] at hmore hnext
        obtain rfl : more = more' := hmore
        cases more with
        | true => exact ih x' y' hnext
        | false => exact hnext

/-- A call that a client makes, a walk apart. -/
inductive StorerCall
  | put (key value : Bytes)
  | putInEpoch (key value : Bytes) (epoch : Nat)
  | get (key : Bytes)
  | getFromEpoch (key : Bytes) (epoch : Nat)
  | searchFirst (key : Bytes)
  | getManyFromEpoch (keys : List Bytes) (epoch : Nat)
  | has (key : Bytes)
  | remove (key : Bytes)
  | removeFromCurrentEpoch (key : Bytes)
  | clearCache
  | oldestEpoch
  | close
  | destroy
  deriving DecidableEq, Repr

/-- What a storer answers. -/
inductive StorerAnswer
  | done (outcome : Except Failure Unit)
  | value (outcome : Except Failure Bytes)
  | pairs (outcome : Except Failure (List (Bytes × Bytes)))
  | epoch (outcome : Except Failure Nat)
  | nothing

/-- What clients ask of tiers, or of whatever stands in for them. -/
class Storer (S : Type) where
  answer : S → StorerCall → StorerAnswer × S
  /-- Walks over the stored pairs until the visitor answers `false`. -/
  walk {τ : Type} : S → (Bytes × Bytes → S × τ → Bool × S × τ) → τ → S × τ

instance {κ σ : Type} [CacheEngine κ] [BackingStore σ] : Storer (Tiers κ σ) where
  answer t
    | .put key value => (t.put key value).map .done id
    | .putInEpoch key value epoch => (t.putInEpoch key value epoch).map .done id
    | .get key => (t.get key).map .value id
    | .getFromEpoch key epoch => (t.getFromEpoch key epoch).map .value id
    | .searchFirst key => (t.searchFirst key).map .value id
    | .getManyFromEpoch keys epoch => (t.getManyFromEpoch keys epoch).map .pairs id
    | .has key => (t.has key).map .done id
    | .remove key => (t.remove key).map .done id
    | .removeFromCurrentEpoch key => (t.removeFromCurrentEpoch key).map .done id
    | .clearCache => (.nothing, t.clearCache)
    | .oldestEpoch => (.epoch t.oldestEpoch, t)
    | .close => t.close.map .done id
    | .destroy => t.destroy.map .done id
  walk := Tiers.walk

/-- What a client sees. -/
inductive ClientEvent
  /-- A call was answered. -/
  | answered (call : StorerCall) (answer : StorerAnswer)
  /-- A walk came to a pair. -/
  | visited (pair : Bytes × Bytes)

/-- A call of a client, or a walk with what it does there: the calls that it makes at a pair, and
whether it goes on to the next one, both given the events so far. -/
inductive ClientCall
  | call (call : StorerCall)
  | walk (calls : List ClientEvent → List ClientCall) (more : List ClientEvent → Bool)

namespace Client

variable {S : Type} [Storer S]

mutual
/-- Makes a call; the events are added to those before it. -/
def perform (run : S × List ClientEvent) : ClientCall → S × List ClientEvent
  | .call call =>
    let (answer, s) := Storer.answer run.1 call
    (s, run.2 ++ [.answered call answer])
  | .walk calls more =>
    Storer.walk run.1 (fun pair run =>
      let events := run.2 ++ [.visited pair]
      let run := performAll (run.1, events) (calls events)
      (more run.2, run)) run.2

/-- Makes calls in turn. -/
def performAll (run : S × List ClientEvent) : List ClientCall → S × List ClientEvent
  | [] => run
  | call :: rest => performAll (perform run call) rest
end

end Client

namespace Storer

variable {S T : Type} [Storer S] [Storer T]

/-- What holds of a storer and the events so far is kept by every call, and by every walk whose
visitor keeps it. -/
structure Keeps (I : S × List ClientEvent → Prop) : Prop where
  answer : ∀ {s events}, I (s, events) → ∀ call,
    I ((Storer.answer s call).2, events ++ [.answered call (Storer.answer s call).1])
  visited : ∀ {s events}, I (s, events) → ∀ pair, I (s, events ++ [.visited pair])
  walk : ∀ {s events}, I (s, events) →
    ∀ visit : Bytes × Bytes → S × List ClientEvent → Bool × S × List ClientEvent,
      (∀ pair run, I run → I (visit pair run).2) → I (Storer.walk s visit events)

mutual
/-- A walk keeps what its visitor keeps, and the visitor is a client; so the induction is on the
calls and the visitors together. -/
theorem Keeps.perform {I : S × List ClientEvent → Prop} (keeps : Keeps I) :
    ∀ (call : ClientCall) (run : S × List ClientEvent), I run → I (Client.perform run call)
  | .call call => by
    intro run h
    rw [Client.perform]
    exact keeps.answer h call
  | .walk calls more => by
    intro run h
    rw [Client.perform]
    refine keeps.walk h _ fun pair run h => ?_
    exact keeps.performAll (calls (run.2 ++ [.visited pair])) _ (keeps.visited h pair)

/-- What every call and every walk keeps, every run keeps. -/
theorem Keeps.performAll {I : S × List ClientEvent → Prop} (keeps : Keeps I) :
    ∀ (calls : List ClientCall) (run : S × List ClientEvent), I run → I (Client.performAll run calls)
  | [] => by
    intro run h
    rw [Client.performAll]
    exact h
  | call :: rest => by
    intro run h
    rw [Client.performAll]
    exact keeps.performAll rest _ (keeps.perform call run h)
end

/-- Two runs with related storers and the same events. -/
def Alike (R : S → T → Prop) (run : S × List ClientEvent) (run' : T × List ClientEvent) : Prop :=
  R run.1 run'.1 ∧ run.2 = run'.2

/-- Related storers give equal answers and stay related; so they do in walks whose visitors go on
alike. -/
structure Simulates (R : S → T → Prop) : Prop where
  answer : ∀ {s t}, R s t → ∀ call, (Storer.answer s call).1 = (Storer.answer t call).1 ∧
    R (Storer.answer s call).2 (Storer.answer t call).2
  walk : ∀ {s t}, R s t →
    ∀ (visit : Bytes × Bytes → S × List ClientEvent → Bool × S × List ClientEvent)
      (visit' : Bytes × Bytes → T × List ClientEvent → Bool × T × List ClientEvent),
      (∀ pair run run', Alike R run run' →
        (visit pair run).1 = (visit' pair run').1 ∧
          Alike R (visit pair run).2 (visit' pair run').2) →
      ∀ events, Alike R (Storer.walk s visit events) (Storer.walk t visit' events)

mutual
/-- The same induction, over two runs: equal events so far make equal calls. -/
theorem Simulates.perform {R : S → T → Prop} (simulates : Simulates R) :
    ∀ (call : ClientCall) (run : S × List ClientEvent) (run' : T × List ClientEvent),
      Alike R run run' → Alike R (Client.perform run call) (Client.perform run' call)
  | .call call => by
    rintro ⟨s, events⟩ ⟨t, _⟩ ⟨h, rfl⟩
    obtain ⟨hanswer, hnext⟩ := simulates.answer h call
    rw [Client.perform, Client.perform]
    exact ⟨hnext, congrArg (fun answer => events ++ [.answered call answer]) hanswer⟩
  | .walk calls more => by
    rintro ⟨s, events⟩ ⟨t, _⟩ ⟨h, rfl⟩
    rw [Client.perform, Client.perform]
    refine simulates.walk h _ _ ?_ events
    rintro pair ⟨s, events⟩ ⟨t, _⟩ ⟨h, rfl⟩
    have halike := simulates.performAll (calls (events ++ [.visited pair]))
      (s, events ++ [.visited pair]) (t, events ++ [.visited pair]) ⟨h, rfl⟩
    exact ⟨congrArg more halike.2, halike⟩

/-- Clients of related storers see the same events. -/
theorem Simulates.performAll {R : S → T → Prop} (simulates : Simulates R) :
    ∀ (calls : List ClientCall) (run : S × List ClientEvent) (run' : T × List ClientEvent),
      Alike R run run' → Alike R (Client.performAll run calls) (Client.performAll run' calls)
  | [] => by
    intro run run' h
    rw [Client.performAll, Client.performAll]
    exact h
  | call :: rest => by
    intro run run' h
    rw [Client.performAll, Client.performAll]
    exact simulates.performAll rest _ _ (simulates.perform call run run' h)
end

end Storer

/-- A call to a cache as tiers make it: a value that is written counts for its length. -/
def CacheCall.Measured : CacheCall → Prop
  | put _ value counted => counted = value.length
  | _ => True

namespace Tiers

/-! ## The cache of tiers -/

section Cache

variable {κ σ : Type} [CacheEngine κ] [BackingStore σ] {I : κ → Prop}
  (step : ∀ c, I c → ∀ call : CacheCall, call.Measured → I (CacheEngine.perform c call).2)

include step

/-- A write calls the cache once, or twice if the store refuses it. -/
theorem cache_put {t : Tiers κ σ} (h : I t.cache) (key value : Bytes) :
    I (t.put key value).2.cache := by
  have hput : I (CacheEngine.put t.cache key value value.length).2 :=
    step _ h (.put key value value.length) rfl
  unfold put
  split
  · exact h
  · dsimp only
    split
    · exact hput
    · exact step _ hput (.remove key) trivial

omit [BackingStore σ] in
/-- The first section of a read is a call to the cache. -/
theorem cache_lookup {t : Tiers κ σ} (h : I t.cache) (key : Bytes) :
    I (t.lookup key).2.cache := by
  unfold lookup
  split
  · exact h
  · exact step _ h (.get key) trivial

/-- The second one is a call, and another one to write what the store has found. -/
theorem cache_fetch {t : Tiers κ σ} (h : I t.cache) (key : Bytes) : I (t.fetch key).2.cache := by
  have hlookup := cache_lookup step h key
  unfold fetch
  split
  · next heq => rw [heq] at hlookup; exact hlookup
  · next heq => rw [heq] at hlookup; exact hlookup
  · next heq =>
    rw [heq] at hlookup
    split
    · exact hlookup
    · next value _ _ => exact step _ hlookup (.put key value value.length) rfl

/-- So a read is one to three calls to the cache. -/
theorem cache_get {t : Tiers κ σ} (h : I t.cache) (key : Bytes) : I (t.get key).2.cache := by
  have hlookup := cache_lookup step h key
  unfold get
  split
  · next heq => rw [heq] at hlookup; exact hlookup
  · next heq => rw [heq] at hlookup; exact hlookup
  · next heq =>
    rw [heq] at hlookup
    exact cache_fetch step hlookup key

/-- A read of many keys is those of each key in turn. -/
theorem cache_getMany (keys : List Bytes) :
    ∀ t : Tiers κ σ, I t.cache → I (t.getMany keys).2.cache := by
  induction keys with
  | nil => exact fun t h => h
  | cons key rest ih =>
    intro t h
    have hget := cache_get step h key
    rw [getMany]
    split
    · next heq => rw [heq] at hget; exact ih _ hget
    · next heq => rw [heq] at hget; exact ih _ hget

omit step in
/-- Asking whether something is stored leaves the cache as it is. -/
theorem cache_has (t : Tiers κ σ) (key : Bytes) : (t.has key).2.cache = t.cache := by
  unfold has
  split
  · rfl
  · split <;> rfl

theorem cache_remove {t : Tiers κ σ} (h : I t.cache) (key : Bytes) :
    I (t.remove key).2.cache := by
  unfold remove
  split
  · exact h
  · exact step _ h (.remove key) trivial

/-- A destruction clears the cache, unless it is turned away. -/
theorem cache_destroy {t : Tiers κ σ} (h : I t.cache) : I t.destroy.2.cache := by
  have hclear : I (CacheEngine.clear t.cache) := step _ h .clear trivial
  unfold destroy
  split
  · exact h
  · dsimp only
    split <;> exact hclear

/-- Every answer is given with calls to the cache and with nothing else done to it. -/
theorem cache_answer {t : Tiers κ σ} (h : I t.cache) (call : StorerCall) :
    I (Storer.answer t call).2.cache := by
  cases call with
  | put key value => exact cache_put step h key value
  | putInEpoch key value epoch => exact cache_put step h key value
  | get key => exact cache_get step h key
  | getFromEpoch key epoch => exact cache_get step h key
  | searchFirst key => exact cache_get step h key
  | getManyFromEpoch keys epoch => exact cache_getMany step keys t h
  | has key =>
    show I (t.has key).2.cache
    rw [cache_has]
    exact h
  | remove key => exact cache_remove step h key
  | removeFromCurrentEpoch key => exact cache_remove step h key
  | clearCache => exact step _ h .clear trivial
  | oldestEpoch => exact h
  | close => exact step _ h .clear trivial
  | destroy => exact cache_destroy step h

/-- What every measured call keeps of a cache, every run of tiers over it keeps, whatever the
store. -/
theorem keeps_measured :
    Storer.Keeps fun run : Tiers κ σ × List ClientEvent => I run.1.cache where
  answer h call := cache_answer step h call
  visited h _ := h
  walk {t events} h visit hvisit := by
    show I (t.walk visit events).1.cache
    unfold walk
    split
    · exact h
    · exact visitWhile_keeps hvisit _ _ h

omit step in
/-- So it keeps what every call keeps, measured or not. -/
theorem keeps_cache (step : ∀ c, I c → ∀ call, I (CacheEngine.perform c call).2) :
    Storer.Keeps fun run : Tiers κ σ × List ClientEvent => I run.1.cache :=
  keeps_measured fun c h call _ => step c h call

end Cache

end Tiers

end TieredStore
