import Mathlib.Algebra.BigOperators.Group.List.Basic
import Mathlib.Algebra.Order.Field.Basic
import Mathlib.Data.List.MinMax
import Mathlib.Tactic.Linarith
import Mathlib.Tactic.Ring

namespace balance

variable {R : Type*} [Field R]

/-- The sum of the squared loads. For a given total it is least when all are
equal. -/
def squares (loads : List R) : R := (loads.map fun load => load * load).sum

/-- What the squares lose when `x` goes from a load `s` to a load `d`. -/
theorem squares_gain (s d x : R) :
    s * s + d * d - ((s - x) * (s - x) + (d + x) * (d + x)) = 2 * x * (s - d - x) := by
  ring

variable [LinearOrder R] [IsStrictOrderedRing R]

/-- The loads have come closer together. -/
structure Improves (before after : List R) : Prop where
  squares_lt : squares after < squares before
  maximum_le : after.maximum ≤ before.maximum
  le_minimum : before.minimum ≤ after.minimum

/-- Such a transfer gains exactly if it does not reverse the two loads. -/
theorem gap_of_gain {s d x : R} (hpos : 0 < x)
    (hgain : 0 < s * s + d * d - ((s - x) * (s - x) + (d + x) * (d + x))) : d + x < s := by
  rw [squares_gain] at hgain
  have hgap := (mul_pos_iff_of_pos_left (mul_pos two_pos hpos)).mp hgain
  linarith

open List in
/-- Moving some load to a load that stays below the old one evens them out. -/
theorem improves_of_transfer {before after rest : List R} {s d x : R} (hpos : 0 < x) (hgap : d + x < s)
    (hbefore : before ~ s :: d :: rest) (hafter : after ~ (s - x) :: (d + x) :: rest) : Improves before after where
  squares_lt := by
    have hsum : squares before = s * s + (d * d + squares rest) := by
      rw [squares, (hbefore.map _).sum_eq]
      simp [squares]
    have hsum' : squares after = (s - x) * (s - x) + ((d + x) * (d + x) + squares rest) := by
      rw [squares, (hafter.map _).sum_eq]
      simp [squares]
    have hgain := squares_gain s d x
    have hprod : 0 < 2 * x * (s - d - x) := mul_pos (mul_pos two_pos hpos) (by linarith)
    rw [hsum, hsum']
    linarith
  maximum_le := by
    refine List.maximum_le_of_forall_le fun load hload => ?_
    rcases List.mem_cons.mp (hafter.mem_iff.mp hload) with rfl | hload
    · refine le_trans ?_ (List.le_maximum_of_mem' (hbefore.mem_iff.mpr List.mem_cons_self))
      exact WithBot.coe_le_coe.mpr (by linarith)
    rcases List.mem_cons.mp hload with rfl | hload
    · refine le_trans ?_ (List.le_maximum_of_mem' (hbefore.mem_iff.mpr List.mem_cons_self))
      exact WithBot.coe_le_coe.mpr hgap.le
    · exact List.le_maximum_of_mem' (hbefore.mem_iff.mpr (List.mem_cons_of_mem _ (List.mem_cons_of_mem _ hload)))
  le_minimum := by
    have hd : d ∈ before := hbefore.mem_iff.mpr (List.mem_cons_of_mem _ List.mem_cons_self)
    refine List.le_minimum_of_forall_le fun load hload => ?_
    rcases List.mem_cons.mp (hafter.mem_iff.mp hload) with rfl | hload
    · refine le_trans (List.minimum_le_of_mem' hd) ?_
      exact WithTop.coe_le_coe.mpr (by linarith)
    rcases List.mem_cons.mp hload with rfl | hload
    · refine le_trans (List.minimum_le_of_mem' hd) ?_
      exact WithTop.coe_le_coe.mpr (by linarith)
    · exact List.minimum_le_of_mem' (hbefore.mem_iff.mpr (List.mem_cons_of_mem _ (List.mem_cons_of_mem _ hload)))

end balance
