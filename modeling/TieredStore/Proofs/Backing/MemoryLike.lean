import TieredStore.Backing.RehearsedStore

/-!
# Stores that are memory when they do not fail

The store in memory and the store for rehearsing failures behave alike but for the failures: each
call either is that call to the memory behind the store, or fails and leaves the memory alone.
`MemoryLike` says so, and the `_cases` lemmas spell out what each call can do to the memory.
-/

namespace TieredStore

/-- What comes of a call to a store: it fails and leaves the memory behind the store alone, or it is
that call to the memory. -/
def PassesOn {α σ : Type} (memory : σ → MemoryStore) (s : σ) (called : Except Failure α × σ)
    (behind : Except Failure α × MemoryStore) : Prop :=
  (∃ failure, called.1 = .error failure ∧ memory called.2 = memory s) ∨
    called.1 = behind.1 ∧ memory called.2 = behind.2

/-- A store in front of a store in memory. -/
class MemoryLike (σ : Type) [BackingStore σ] where
  /-- The memory behind the store. -/
  memory : σ → MemoryStore
  put : ∀ s key value,
    PassesOn memory s (BackingStore.put s key value) (BackingStore.put (memory s) key value)
  get : ∀ s key, PassesOn memory s (BackingStore.get s key) (BackingStore.get (memory s) key)
  has : ∀ s key, PassesOn memory s (BackingStore.has s key) (BackingStore.has (memory s) key)
  remove : ∀ s key,
    PassesOn memory s (BackingStore.remove s key) (BackingStore.remove (memory s) key)
  snapshot : ∀ s, (BackingStore.snapshot s).1 = (memory s).snapshot ∧
    memory (BackingStore.snapshot s).2 = memory s
  close : ∀ s, PassesOn memory s (BackingStore.close s) (BackingStore.close (memory s))
  destroy : ∀ s, PassesOn memory s (BackingStore.destroy s) (BackingStore.destroy (memory s))

instance : MemoryLike MemoryStore where
  memory := id
  put _ _ _ := .inr ⟨rfl, rfl⟩
  get _ _ := .inr ⟨rfl, rfl⟩
  has _ _ := .inr ⟨rfl, rfl⟩
  remove _ _ := .inr ⟨rfl, rfl⟩
  snapshot _ := ⟨rfl, rfl⟩
  close _ := .inr ⟨rfl, rfl⟩
  destroy _ := .inr ⟨rfl, rfl⟩

/-- A rehearsed call fails as scheduled or is passed on. -/
theorem RehearsedStore.passesOn_perform {α : Type} (s : RehearsedStore) (call : StoreCall)
    (passOn : MemoryStore → Except Failure α × MemoryStore) :
    PassesOn RehearsedStore.memory s (s.perform call passOn) (passOn s.memory) := by
  unfold RehearsedStore.perform
  cases s.schedule s.calls.length call with
  | some failure => exact .inl ⟨failure, rfl, rfl⟩
  | none => exact .inr ⟨rfl, rfl⟩

instance : MemoryLike RehearsedStore where
  memory := RehearsedStore.memory
  put s _ _ := s.passesOn_perform _ _
  get s _ := s.passesOn_perform _ _
  has s _ := s.passesOn_perform _ _
  remove s _ := s.passesOn_perform _ _
  snapshot _ := ⟨rfl, rfl⟩
  close s := s.passesOn_perform _ _
  destroy s := s.passesOn_perform _ _

namespace MemoryLike

variable {σ : Type} [BackingStore σ] [MemoryLike σ]

/-- A write fails and leaves the memory alone, or the memory was open and has the value now. -/
theorem put_cases (s : σ) (key value : Bytes) :
    (∃ failure, (BackingStore.put s key value).1 = .error failure) ∧
        memory (BackingStore.put s key value).2 = memory s ∨
      (BackingStore.put s key value).1 = .ok () ∧ (memory s).closed = false ∧
        memory (BackingStore.put s key value).2 =
          { memory s with pairs := (memory s).pairs.insert key value } := by
  rcases put s key value with ⟨failure, hfailed, hsame⟩ | ⟨hanswer, hmemory⟩
  · exact .inl ⟨⟨failure, hfailed⟩, hsame⟩
  · simp only [BackingStore.put, MemoryStore.put] at hanswer hmemory
    split at hanswer
    · next hclosed => exact .inl ⟨⟨_, hanswer⟩, by rw [hmemory, if_pos hclosed]⟩
    · next hopen =>
      exact .inr ⟨hanswer, Bool.eq_false_iff.mpr hopen, by rw [hmemory, if_neg hopen]⟩

/-- A read changes nothing, and what it finds is there; it may fail although something is there. -/
theorem get_cases (s : σ) (key : Bytes) :
    memory (BackingStore.get s key).2 = memory s ∧
      ((∃ failure, (BackingStore.get s key).1 = .error failure) ∨
        ∃ value, (BackingStore.get s key).1 = .ok value ∧ (memory s).closed = false ∧
          (memory s).pairs[key]? = some value) := by
  rcases get s key with ⟨failure, hfailed, hsame⟩ | ⟨hanswer, hmemory⟩
  · exact ⟨hsame, .inl ⟨failure, hfailed⟩⟩
  · refine ⟨hmemory, ?_⟩
    simp only [BackingStore.get, MemoryStore.get] at hanswer
    split at hanswer
    · exact .inl ⟨_, hanswer⟩
    · next hopen =>
      split at hanswer
      · next value hvalue => exact .inr ⟨value, hanswer, Bool.eq_false_iff.mpr hopen, hvalue⟩
      · exact .inl ⟨_, hanswer⟩

/-- Whatever a store answers to being asked for a key, the memory stays as it is. -/
theorem memory_has (s : σ) (key : Bytes) : memory (BackingStore.has s key).2 = memory s := by
  rcases has s key with ⟨failure, _, hsame⟩ | ⟨_, hmemory⟩
  · exact hsame
  · exact hmemory

/-- A removal fails and leaves the memory alone, or the memory was open and lacks the key now;
whether it was there before is not told. -/
theorem remove_cases (s : σ) (key : Bytes) :
    (∃ failure, (BackingStore.remove s key).1 = .error failure) ∧
        memory (BackingStore.remove s key).2 = memory s ∨
      (BackingStore.remove s key).1 = .ok () ∧ (memory s).closed = false ∧
        memory (BackingStore.remove s key).2 =
          { memory s with pairs := (memory s).pairs.erase key } := by
  rcases remove s key with ⟨failure, hfailed, hsame⟩ | ⟨hanswer, hmemory⟩
  · exact .inl ⟨⟨failure, hfailed⟩, hsame⟩
  · simp only [BackingStore.remove, MemoryStore.remove] at hanswer hmemory
    split at hanswer
    · next hclosed => exact .inl ⟨⟨_, hanswer⟩, by rw [hmemory, if_pos hclosed]⟩
    · next hopen =>
      exact .inr ⟨hanswer, Bool.eq_false_iff.mpr hopen, by rw [hmemory, if_neg hopen]⟩

theorem close_cases (s : σ) :
    (∃ failure, (BackingStore.close s).1 = .error failure) ∧
        memory (BackingStore.close s).2 = memory s ∨
      (BackingStore.close s).1 = .ok () ∧ memory (BackingStore.close s).2 = (memory s).close := by
  rcases close s with ⟨failure, hfailed, hsame⟩ | hpassed
  · exact .inl ⟨⟨failure, hfailed⟩, hsame⟩
  · exact .inr hpassed

/-- A destruction fails and leaves the memory alone, or drops all of it. -/
theorem destroy_cases (s : σ) :
    (∃ failure, (BackingStore.destroy s).1 = .error failure) ∧
        memory (BackingStore.destroy s).2 = memory s ∨
      (BackingStore.destroy s).1 = .ok () ∧
        memory (BackingStore.destroy s).2 = (memory s).destroy := by
  rcases destroy s with ⟨failure, hfailed, hsame⟩ | hpassed
  · exact .inl ⟨⟨failure, hfailed⟩, hsame⟩
  · exact .inr hpassed

end MemoryLike

end TieredStore
