import TieredStore.Backing.MemoryStore
import TieredStore.Cache
import TieredStore.Proofs.OrderedMap
import TieredStore.Proofs.Tiers.Client
import TieredStore.Proofs.Tiers.Coherence

/-!
# A walk sees what was stored when it began

A visitor may do at every pair whatever a client can do: remove keys that are still to come, write
over them, close the store, destroy the tiers, begin another walk. It decides call by call, from
what it is answered. A `Reaction` is one such decision tree, and a handler gives the reaction to
each pair from a state that it carries along.

**The law** (`Tiers.walk_visits_snapshot`): none of this is seen in the walk. The pairs visited are
those that were stored when it began, each key once, from the first one up to the first pair at
which the visitor refuses to go on, or all of them. And the walk does nothing of its own: the tiers
are left as the calls of the visitor, made one after another, leave them.
-/

namespace TieredStore

/-- What a visitor does at a pair: it makes calls, each chosen by the events so far, and comes to a
result. -/
inductive Reaction (ρ : Type)
  | done (result : ρ)
  | ask (call : ClientCall) (next : List ClientEvent → Reaction ρ)

/-- Makes the calls of a reaction; gives the result, the run after it and the calls made. -/
def Reaction.run {S ρ : Type} [Storer S] (run : S × List ClientEvent) :
    Reaction ρ → ρ × (S × List ClientEvent) × List ClientCall
  | .done result => (result, run, [])
  | .ask call next =>
    let run := Client.perform run call
    let (result, run, calls) := (next run.2).run run
    (result, run, call :: calls)

/-- What happened at one pair. -/
structure Visit where
  pair : Bytes × Bytes
  /-- The calls that the visitor made. -/
  calls : List ClientCall
  /-- Whether the visitor wanted to go on. -/
  more : Bool

/-- A visitor that reacts to every pair as a handler with a state says. It keeps the events, its
state and a record of the visits. -/
def Handler.visit {S τ : Type} [Storer S] (handle : Bytes × Bytes → τ → Reaction (Bool × τ))
    (pair : Bytes × Bytes) :
    S × List ClientEvent × τ × List Visit → Bool × S × List ClientEvent × τ × List Visit
  | (s, events, state, visits) =>
    let ((more, state), (s, events), calls) := (handle pair state).run (s, events)
    (more, s, events, state, visits ++ [⟨pair, calls, more⟩])

/-- How the visits of a walk lie in the pairs that it goes over. -/
structure Walked (stored : List (Bytes × Bytes)) (visits : List Visit) : Prop where
  /-- The pairs visited are the first ones. -/
  initial : visits.map Visit.pair <+: stored
  /-- A visitor that refuses to go on is not called again. -/
  stopped : ∀ before visit after, visits = before ++ visit :: after → visit.more = false →
    after = []
  /-- Without a refusal every pair is visited. -/
  finished : (∀ visit ∈ visits, visit.more = true) → visits.map Visit.pair = stored

namespace Client

variable {S : Type} [Storer S]

theorem performAll_append (calls rest : List ClientCall) :
    ∀ run : S × List ClientEvent,
      performAll run (calls ++ rest) = performAll (performAll run calls) rest := by
  induction calls with
  | nil =>
    intro run
    rw [List.nil_append, performAll]
  | cons call calls ih =>
    intro run
    rw [List.cons_append, performAll, performAll, ih]

end Client

/-- A reaction leaves what its calls leave. -/
theorem Reaction.run_eq_performAll {S ρ : Type} [Storer S] (reaction : Reaction ρ) :
    ∀ run : S × List ClientEvent,
      (reaction.run run).2.1 = Client.performAll run (reaction.run run).2.2 := by
  induction reaction with
  | done result =>
    intro run
    rw [Reaction.run, Client.performAll]
  | ask call next ih =>
    intro run
    rw [Reaction.run, Client.performAll]
    exact ih (Client.perform run call).2 (Client.perform run call)

namespace Walked

variable {pair : Bytes × Bytes} {calls : List ClientCall} {stored : List (Bytes × Bytes)}
  {visits : List Visit}

theorem nil : Walked [] [] where
  initial := List.prefix_refl []
  stopped before visit after h := by
    cases List.append_eq_nil_iff.mp h.symm |>.2
  finished _ := rfl

/-- The visitor refuses at the first pair. -/
theorem refused : Walked (pair :: stored) [⟨pair, calls, false⟩] where
  initial := by
    rw [List.map_singleton, List.cons_prefix_cons]
    exact ⟨rfl, List.nil_prefix⟩
  stopped before visit after h _ := by
    have hlength := congrArg List.length h
    simp only [List.length_append, List.length_cons, List.length_nil] at hlength
    exact List.eq_nil_of_length_eq_zero (by omega)
  finished h := by
    cases h _ (List.mem_singleton.mpr rfl)

/-- The visitor goes on after the first pair. -/
theorem cons (h : Walked stored visits) :
    Walked (pair :: stored) (⟨pair, calls, true⟩ :: visits) where
  initial := by
    rw [List.map_cons, List.cons_prefix_cons]
    exact ⟨rfl, h.initial⟩
  stopped before visit after heq hrefused := by
    cases before with
    | nil =>
      obtain ⟨rfl, _⟩ := List.cons.inj heq
      cases hrefused
    | cons first before => exact h.stopped before visit after (List.cons.inj heq).2 hrefused
  finished hmore := by
    rw [List.map_cons, h.finished fun visit hvisit => hmore visit (List.mem_cons_of_mem _ hvisit)]

end Walked

/-- The visits of a handler over a list, and what they leave. The induction is on the list, for any
run, state and earlier visits that the walk has come to. -/
theorem visitWhile_walked {S τ : Type} [Storer S]
    (handle : Bytes × Bytes → τ → Reaction (Bool × τ)) (stored : List (Bytes × Bytes)) :
    ∀ (s : S) (events : List ClientEvent) (state : τ) (earlier : List Visit),
      ∃ visits, Walked stored visits ∧
        let last := visitWhile (Handler.visit handle) stored (s, events, state, earlier)
        last.2.2.2 = earlier ++ visits ∧
          (last.1, last.2.1) = Client.performAll (s, events) (visits.flatMap Visit.calls) := by
  induction stored with
  | nil =>
    intro s events state earlier
    refine ⟨[], .nil, (List.append_nil earlier).symm, ?_⟩
    rw [List.flatMap_nil, Client.performAll]
    rfl
  | cons pair stored ih =>
    intro s events state earlier
    have hcalls := (handle pair state).run_eq_performAll (s, events)
    rcases hreact : (handle pair state).run (s, events) with ⟨⟨more, state'⟩, ⟨s', events'⟩, calls⟩
    rw [hreact] at hcalls
    have hvisit : Handler.visit handle pair (s, events, state, earlier) =
        (more, s', events', state', earlier ++ [⟨pair, calls, more⟩]) := by
      rw [Handler.visit, hreact]
    cases more with
    | false =>
      refine ⟨[⟨pair, calls, false⟩], .refused, ?_⟩
      rw [visitWhile, hvisit]
      refine ⟨rfl, ?_⟩
      rw [List.flatMap_singleton]
      exact hcalls
    | true =>
      obtain ⟨visits, hwalked, hvisits, hlast⟩ :=
        ih s' events' state' (earlier ++ [⟨pair, calls, true⟩])
      refine ⟨⟨pair, calls, true⟩ :: visits, hwalked.cons, ?_⟩
      rw [visitWhile, hvisit]
      refine ⟨?_, ?_⟩
      · rw [hvisits, List.append_assoc, List.singleton_append]
      · rw [List.flatMap_cons, Client.performAll_append, ← hcalls]
        exact hlast

namespace Tiers

/-- **A walk sees what was stored when it began.** Take tiers over a store in memory that is not
closed, and a handler that may make any calls at a pair, each chosen by the answers so far. There is
a list of exactly the pairs stored, each key once, such that the pairs visited are its first ones; a
visitor that refuses to go on is not called again, and without a refusal all pairs are visited.
What the walk leaves, and the events of it, are those of the visitor's calls made one after another
by a client. -/
theorem walk_visits_snapshot {κ τ : Type} [CacheEngine κ] {t : Tiers κ MemoryStore}
    (alive : t.destroyed = false) (inUse : t.store.closed = false)
    (handle : Bytes × Bytes → τ → Reaction (Bool × τ)) (events : List ClientEvent) (start : τ) :
    ∃ stored visits, (stored.map Prod.fst).Nodup ∧
      (∀ key value, (key, value) ∈ stored ↔ t.store.pairs[key]? = some value) ∧
      Walked stored visits ∧
      let last := t.walk (Handler.visit handle) (events, start, [])
      last.2.2.2 = visits ∧
        (last.1, last.2.1) = Client.performAll (t, events) (visits.flatMap Visit.calls) := by
  let stored := t.store.order.arrange t.store.pairs.toList
  have hperm : stored.Perm t.store.pairs.toList := t.store.order.perm _
  have hnodup := (hperm.map Prod.fst).nodup_iff.mpr (OrderedMap.nodup_keys t.store.pairs)
  obtain ⟨visits, hwalked, hvisits, hlast⟩ := visitWhile_walked handle stored t events start []
  refine ⟨stored, visits, hnodup, ?_, hwalked, ?_⟩
  · intro key value
    exact hperm.mem_iff.trans OrderedMap.mem_toList
  · rw [walk_inUse alive inUse]
    exact ⟨hvisits, hlast⟩

/-- At the first of three keys the visitor removes the second and writes the third over, and at the
second, which is visited all the same, it destroys the tiers and stops. -/
theorem walk_visits_snapshot_destroying :
    let handle : Bytes × Bytes → Unit → Reaction (Bool × Unit) := fun pair _ =>
      if pair.1 = [1] then
        .ask (.call (.remove [2])) fun _ => .ask (.call (.put [3] [31])) fun _ => .done (true, ())
      else .ask (.call .destroy) fun _ => .done (false, ())
    let calls : List ClientCall := [.call (.remove [2]), .call (.put [3] [31]), .call .destroy]
    ∃ cache, Cache.ofSettings { kind := .sharded, capacity := 4, shards := 2 } = .ok cache ∧
      let t := (Client.performAll (({ cache, store := {} } : Tiers Cache MemoryStore), [])
        [.call (.put [1] [10]), .call (.put [2] [20]), .call (.put [3] [30])]).1
      let last := t.walk (Handler.visit handle) ([], (), [])
      last.2.2.2.map Visit.pair = [([1], [10]), ([2], [20])] ∧
        (last.1, last.2.1) = Client.performAll (t, []) calls := by
  intro handle calls
  refine ⟨_, rfl, ?_⟩
  intro t last
  obtain ⟨stored, visits, _, _, _, hvisits, hlast⟩ :=
    walk_visits_snapshot (t := t) rfl rfl handle [] ()
  have hcalls : last.2.2.2.flatMap Visit.calls = calls := rfl
  refine ⟨rfl, ?_⟩
  rw [← hvisits, hcalls] at hlast
  exact hlast

end Tiers

end TieredStore
