import Mathlib.Algebra.Order.Monoid.Defs
import Mathlib.Algebra.Order.Monoid.Unbundled.Pow
import Mathlib.Logic.Function.Basic

namespace balance

variable {E R : Type*} [DecidableEq E] [AddCommMonoid R] [PartialOrder R] [IsOrderedAddMonoid R]

/-- Each receiver in turn is one of the least loaded, and its load grows by a
weight. -/
def LeastLoaded (known : E → Prop) (weight : R) : (E → R) → List E → Prop
  | _, [] => True
  | load, e :: rest => known e ∧ (∀ m, known m → load e ≤ load m) ∧
      LeastLoaded known weight (Function.update load e (load e + weight)) rest

omit [PartialOrder R] [IsOrderedAddMonoid R] in
theorem update_add_count (load : E → R) (weight : R) (e x : E) (rest : List E) :
    Function.update load e (load e + weight) x + rest.count x • weight =
      load x + (e :: rest).count x • weight := by
  by_cases hx : x = e
  · subst hx
    rw [Function.update_self, List.count_cons_self, succ_nsmul, add_assoc, add_comm weight]
  · rw [Function.update_of_ne hx, List.count_cons_of_ne (Ne.symm hx)]

/-- At the end nobody who received anything is more than one weight above the
others: it was no higher than they were when it received for the last time. -/
theorem LeastLoaded.level {known : E → Prop} {weight : R} (hweight : 0 ≤ weight) {load : E → R} {receivers : List E}
    (h : LeastLoaded known weight load receivers) {e m : E} (he : e ∈ receivers) (hm : known m) :
    load e + receivers.count e • weight ≤ load m + receivers.count m • weight + weight := by
  induction receivers generalizing load with
  | nil => cases he
  | cons first rest ih =>
    obtain ⟨-, hleast, hrest⟩ := h
    by_cases hlater : e ∈ rest
    · have hlevel := ih hrest hlater
      rwa [update_add_count, update_add_count] at hlevel
    · obtain rfl := (List.mem_cons.mp he).resolve_right hlater
      rw [List.count_cons_self, List.count_eq_zero_of_not_mem hlater, Nat.zero_add, one_nsmul]
      calc load e + weight ≤ load m + weight := add_le_add_left (hleast m hm) weight
        _ ≤ load m + (e :: rest).count m • weight + weight :=
          add_le_add_left (le_add_of_nonneg_right (nsmul_nonneg hweight _)) weight

end balance
