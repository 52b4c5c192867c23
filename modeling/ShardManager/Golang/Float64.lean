import Mathlib.Algebra.Order.Ring.Rat
import Mathlib.Algebra.Order.Floor.Semiring
import Mathlib.Data.Rat.Floor
import Mathlib.Tactic.Linarith
import Mathlib.Tactic.NormNum

namespace golang

/-- The conversion of an integral `float64` to `int`. What does not fit becomes
the least `int`, as it does on amd64. -/
def truncInt (n : Int) : Int := if -2 ^ 63 ≤ n ∧ n < 2 ^ 63 then n else -2 ^ 63

/-- The `float64` operations the planners use. Nothing is assumed about how
results are rounded; `ceilInt` is the conversion `int(math.Ceil(x))`. -/
class Float64 (F : Type) where
  ofRat : ℚ → F
  maxFloat64 : F
  isNaN : F → Bool
  add : F → F → F
  sub : F → F → F
  mul : F → F → F
  div : F → F → F
  lt : F → F → Bool
  le : F → F → Bool
  ceilInt : F → Int

namespace Float64

variable {F : Type} [Float64 F]

def zero : F := ofRat 0

def ofInt (n : Int) : F := ofRat n

/-- `encoding/json` refuses NaN and the infinities. -/
def isFinite (x : F) : Bool :=
  le x maxFloat64 && le (sub zero maxFloat64) x

/-- `cmp.Compare` on floats: NaN is equal to NaN and below everything else. -/
def compare (x y : F) : Ordering :=
  if (isNaN x && !isNaN y) || lt x y then .lt
  else if (isNaN y && !isNaN x) || lt y x then .gt
  else .eq

end Float64

open Float64

/-- What IEEE 754 says about ordering and addition, as far as it is used:
comparisons with NaN fail, addition propagates NaN and is monotone, and
`+Inf` is the only value above `MaxFloat64`. -/
class LawfulFloat64 (F : Type) [Float64 F] : Prop where
  le_trans : ∀ {a b c : F}, le a b = true → le b c = true → le a c = true
  le_total : ∀ {a b : F}, isNaN a = false → isNaN b = false → le a b = true ∨ le b a = true
  not_isNaN_of_le : ∀ {a b : F}, le a b = true → isNaN a = false ∧ isNaN b = false
  zero_le_max : le (zero : F) maxFloat64 = true
  le_add_zero : ∀ {a : F}, isNaN a = false → le a (add a zero) = true
  isNaN_add : ∀ {a b : F}, isNaN a = true ∨ isNaN b = true → isNaN (add a b) = true
  add_le_add : ∀ {a b c : F}, le a b = true → isNaN (add a c) = false → isNaN (add b c) = false →
    le (add a c) (add b c) = true
  add_le_add_left : ∀ {a b c : F}, le a b = true → isNaN (add c a) = false →
    isNaN (add c b) = false → le (add c a) (add c b) = true
  isNaN_max_add : ∀ {a : F}, isNaN a = false → isNaN (add maxFloat64 a) = false
  le_of_not_le_max : ∀ {a b : F}, isNaN a = false → le a maxFloat64 = false → isNaN b = false →
    le b a = true

namespace ExactFloat

def limit : ℚ := (2 ^ 53 - 1) * 2 ^ 971

/-- The rationals that do not overflow. -/
abbrev Bounded := { q : ℚ // -limit ≤ q ∧ q ≤ limit }

end ExactFloat

/-- Exact arithmetic in the range of `float64`: results beyond it overflow to
an infinity, and nothing is rounded. -/
inductive ExactFloat where
  | nan
  | negInf
  | finite (q : ExactFloat.Bounded)
  | posInf
deriving DecidableEq

namespace ExactFloat

def ofRat (q : ℚ) : ExactFloat :=
  if hupper : limit < q then .posInf
  else if hlower : q < -limit then .negInf
  else .finite ⟨q, not_lt.mp hlower, not_lt.mp hupper⟩

def neg : ExactFloat → ExactFloat
  | .nan => .nan
  | .negInf => .posInf
  | .finite q => ofRat (-q.val)
  | .posInf => .negInf

def add : ExactFloat → ExactFloat → ExactFloat
  | .nan, _ | _, .nan | .negInf, .posInf | .posInf, .negInf => .nan
  | .negInf, _ | _, .negInf => .negInf
  | .posInf, _ | _, .posInf => .posInf
  | .finite p, .finite q => ofRat (p.val + q.val)

/-- The sign of a value that is not NaN. -/
def sign : ExactFloat → ℤ
  | .nan => 0
  | .negInf => -1
  | .finite q => if q.val < 0 then -1 else if 0 < q.val then 1 else 0
  | .posInf => 1

def infinity (sign : ℤ) : ExactFloat :=
  if sign < 0 then .negInf else if 0 < sign then .posInf else .nan

def mul : ExactFloat → ExactFloat → ExactFloat
  | .nan, _ | _, .nan => .nan
  | .finite p, .finite q => ofRat (p.val * q.val)
  | x, y => infinity (sign x * sign y)

def div : ExactFloat → ExactFloat → ExactFloat
  | .nan, _ | _, .nan => .nan
  | .finite p, .finite q => if q.val = 0 then infinity (sign (.finite p)) else ofRat (p.val / q.val)
  | .finite _, _ => ofRat 0
  | x, .finite q => infinity (sign x * (if q.val < 0 then -1 else 1))
  | _, _ => .nan

def le : ExactFloat → ExactFloat → Bool
  | .nan, _ | _, .nan => false
  | .negInf, _ | _, .posInf => true
  | .finite p, .finite q => decide (p.val ≤ q.val)
  | _, _ => false

def ceilInt : ExactFloat → Int
  | .finite q => truncInt ⌈q.val⌉
  | _ => -2 ^ 63

theorem limit_pos : 0 < limit := by norm_num [limit]

instance : Float64 ExactFloat where
  ofRat := ofRat
  maxFloat64 := .finite ⟨limit, by linarith [limit_pos], le_refl _⟩
  isNaN x := decide (x = .nan)
  add := add
  sub x y := add x (neg y)
  mul := mul
  div := div
  lt x y := le x y && !le y x
  le := le
  ceilInt := ceilInt

theorem ofRat_ne_nan (q : ℚ) : ofRat q ≠ .nan := by
  unfold ofRat
  split_ifs <;> simp

theorem ofRat_mono {p q : ℚ} (h : p ≤ q) : le (ofRat p) (ofRat q) = true := by
  have hpos := limit_pos
  unfold ofRat
  split_ifs <;> first | (exfalso; linarith) | simp [le, h]

theorem ofRat_of_bounded (q : Bounded) : ofRat q.val = .finite q := by
  have hq := q.property
  unfold ofRat
  rw [dif_neg (not_lt.mpr hq.2), dif_neg (not_lt.mpr hq.1)]

theorem le_posInf {a : ExactFloat} (h : a ≠ .nan) : le a .posInf = true := by
  cases a <;> simp_all [le]

theorem negInf_le {a : ExactFloat} (h : a ≠ .nan) : le .negInf a = true := by
  cases a <;> simp_all [le]

theorem add_comm (a b : ExactFloat) : add a b = add b a := by
  cases a <;> cases b <;> simp [add, Rat.add_comm]

theorem add_le_add_right {a b c : ExactFloat} (h : le a b = true) (hac : add a c ≠ .nan)
    (hbc : add b c ≠ .nan) : le (add a c) (add b c) = true := by
  cases c with
  | nan => cases a <;> simp [add] at hac
  | negInf => cases a <;> cases b <;> simp_all [add, le]
  | posInf => cases a <;> cases b <;> simp_all [add, le]
  | finite r =>
    cases a with
    | nan => simp [add] at hac
    | negInf => exact negInf_le hbc
    | posInf =>
      have hb : b = .posInf := by cases b <;> simp_all [le]
      subst hb
      exact le_posInf hbc
    | finite p =>
      cases b with
      | nan => simp [add] at hbc
      | negInf => simp [le] at h
      | posInf => exact le_posInf hac
      | finite q =>
        have hpq : p.val ≤ q.val := by simpa [le] using h
        exact ofRat_mono (by linarith)

theorem le_add_zero (a : ExactFloat) (h : a ≠ .nan) : le a (add a (ofRat 0)) = true := by
  have hpos := limit_pos
  have hzero : ofRat 0 = .finite ⟨0, by linarith, by linarith⟩ := ofRat_of_bounded ⟨0, _⟩
  rw [hzero]
  cases a with
  | nan => exact absurd rfl h
  | negInf => rfl
  | posInf => rfl
  | finite q =>
    have hadd : add (.finite q) (.finite ⟨0, by linarith, by linarith⟩) = .finite q := by
      simp [add, ofRat_of_bounded]
    rw [hadd]
    simp [le]

theorem le_of_not_le_limit {a b : ExactFloat} (ha : a ≠ .nan) (hb : b ≠ .nan) {h}
    (hlimit : le a (.finite ⟨limit, h⟩) = false) : le b a = true := by
  cases a with
  | nan => exact absurd rfl ha
  | negInf => simp [le] at hlimit
  | finite q =>
    have hq := q.property.2
    simp [le] at hlimit
    linarith
  | posInf => exact le_posInf hb

instance : LawfulFloat64 ExactFloat where
  le_trans := by
    intro a b c hab hbc
    cases a <;> cases b <;> cases c <;> simp_all [Float64.le, le]
    exact hab.trans hbc
  le_total := by
    intro a b ha hb
    cases a <;> cases b <;> simp_all [Float64.le, Float64.isNaN, le]
    exact LinearOrder.le_total _ _
  not_isNaN_of_le := by
    intro a b h
    cases a <;> cases b <;> simp_all [Float64.le, Float64.isNaN, le]
  zero_le_max := by
    have hpos := limit_pos
    change le (ofRat 0) (.finite _) = true
    rw [← ofRat_of_bounded]
    exact ofRat_mono hpos.le
  le_add_zero := fun h => le_add_zero _ (of_decide_eq_false h)
  isNaN_add := by
    intro a b h
    cases a <;> cases b <;> simp_all [Float64.isNaN, Float64.add, add]
  add_le_add := fun h hac hbc =>
    add_le_add_right h (of_decide_eq_false hac) (of_decide_eq_false hbc)
  add_le_add_left := by
    intro a b c h hca hcb
    change le (add c a) (add c b) = true
    rw [add_comm c a, add_comm c b]
    refine add_le_add_right h ?_ ?_
    · rw [← add_comm c a]
      exact of_decide_eq_false hca
    · rw [← add_comm c b]
      exact of_decide_eq_false hcb
  isNaN_max_add := by
    intro a ha
    apply decide_eq_false
    cases a with
    | nan => simp [Float64.isNaN] at ha
    | finite q => exact ofRat_ne_nan _
    | negInf => simp [Float64.add, Float64.maxFloat64, add]
    | posInf => simp [Float64.add, Float64.maxFloat64, add]
  le_of_not_le_max := fun ha hlimit hb =>
    le_of_not_le_limit (of_decide_eq_false ha) (of_decide_eq_false hb) hlimit


end ExactFloat

end golang
