import Mathlib.Data.List.Induction

/-!
# Looking back in a history

What a cache or an expiring set has for a key is what its history gave the key last, unless
something came after that took it away. `lookBack` reads that off a history: from the end, and no
further than the last event that ends the view.

`lookBack_concat` tells what one more event changes, which is what the invariant of a run needs.
`lookBack_eq_some_iff` says what is found, and `lookBack_filter` that events which give nothing and
end nothing may be left out or put in.
-/

namespace TieredStore

variable {ε α : Type}

/-- What the last event that gives something gives, if no event that ends the view comes after. -/
def lookBack (ends : ε → Bool) (gives : ε → Option α) (history : List ε) : Option α :=
  (history.reverse.takeWhile fun event => !ends event).findSome? gives

variable {ends : ε → Bool} {gives : ε → Option α}

theorem lookBack_concat (history : List ε) (event : ε) :
    lookBack ends gives (history ++ [event]) =
      if ends event then none else (gives event).or (lookBack ends gives history) := by
  rw [lookBack, List.reverse_append, List.reverse_singleton, List.singleton_append,
    List.takeWhile_cons]
  cases ends event with
  | true => rfl
  | false =>
    simp only [Bool.not_false, if_true, List.findSome?_cons, Bool.false_eq_true, if_false]
    cases gives event <;> rfl

/-- What is found was given by an event, and no event after it gave anything or ended the view. -/
theorem lookBack_eq_some_iff {history : List ε} {a : α} :
    lookBack ends gives history = some a ↔
      ∃ before event after, history = before ++ event :: after ∧ ends event = false ∧
        gives event = some a ∧ ∀ later ∈ after, ends later = false ∧ gives later = none := by
  constructor
  · intro h
    induction history using List.reverseRecOn with
    | nil => cases h
    | append_singleton history last ih =>
      rw [lookBack_concat] at h
      cases hends : ends last with
      | true => rw [hends] at h; cases h
      | false =>
        rw [hends, if_neg Bool.false_ne_true] at h
        cases hgives : gives last with
        | some b =>
          rw [hgives, Option.some_or] at h
          refine ⟨history, last, [], rfl, hends, hgives.trans h, ?_⟩
          exact fun later hlater => absurd hlater List.not_mem_nil
        | none =>
          rw [hgives, Option.none_or] at h
          obtain ⟨before, event, after, rfl, hevent, hfound, hafter⟩ := ih h
          refine ⟨before, event, after ++ [last], List.append_assoc .., hevent, hfound, ?_⟩
          intro later hlater
          rcases List.mem_append.mp hlater with hlater | hlater
          · exact hafter later hlater
          · rw [List.mem_singleton.mp hlater]
            exact ⟨hends, hgives⟩
  · rintro ⟨before, event, after, rfl, hevent, hfound, hafter⟩
    induction after using List.reverseRecOn with
    | nil => rw [lookBack_concat, hevent, hfound]; rfl
    | append_singleton after last ih =>
      obtain ⟨hends, hgives⟩ := hafter last (List.mem_append_right _ List.mem_cons_self)
      rw [← List.cons_append, ← List.append_assoc, lookBack_concat, hends, hgives, Option.none_or,
        if_neg Bool.false_ne_true]
      exact ih fun later hlater => hafter later (List.mem_append_left _ hlater)

/-- Events that give nothing and end nothing are not seen. -/
theorem lookBack_filter {keep : ε → Bool}
    (idle : ∀ event, keep event = false → ends event = false ∧ gives event = none)
    (history : List ε) :
    lookBack ends gives (history.filter keep) = lookBack ends gives history := by
  induction history using List.reverseRecOn with
  | nil => rfl
  | append_singleton history last ih =>
    rw [List.filter_append, lookBack_concat]
    cases hkeep : keep last with
    | true => rw [List.filter_cons_of_pos hkeep, List.filter_nil, lookBack_concat, ih]
    | false =>
      obtain ⟨hends, hgives⟩ := idle last hkeep
      rw [List.filter_cons_of_neg (Bool.eq_false_iff.mp hkeep), List.filter_nil, List.append_nil,
        ih, hends, hgives]
      rfl

end TieredStore
