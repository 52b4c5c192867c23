import ShardManager.Golang.Float64

namespace golang

open Float64

/-- Exact arithmetic on the rationals, without rounding or overflow. -/
instance : Float64 ℚ where
  ofRat q := q
  maxFloat64 := ExactFloat.limit
  isNaN _ := false
  add := (· + ·)
  sub := (· - ·)
  mul := (· * ·)
  div := (· / ·)
  lt x y := decide (x < y)
  le x y := decide (x ≤ y)
  ceilInt q := truncInt ⌈q⌉

/-- Exact arithmetic in which no load reaches `MaxFloat64`: it stands above all
rationals. -/
instance : Float64 (WithTop ℚ) where
  ofRat q := q
  maxFloat64 := ⊤
  isNaN _ := false
  add := (· + ·)
  sub := WithTop.map₂ (· - ·)
  mul := WithTop.map₂ (· * ·)
  div := WithTop.map₂ (· / ·)
  lt x y := decide (x < y)
  le x y := decide (x ≤ y)
  ceilInt x := truncInt ⌈x.untopD 0⌉

namespace Float64

@[simp] theorem zero_rat : (zero : ℚ) = 0 := rfl

@[simp] theorem ofInt_rat (n : Int) : (ofInt n : ℚ) = n := rfl

@[simp] theorem ofRat_rat (q : ℚ) : (ofRat q : ℚ) = q := rfl

@[simp] theorem add_rat (x y : ℚ) : add x y = x + y := rfl

@[simp] theorem sub_rat (x y : ℚ) : sub x y = x - y := rfl

@[simp] theorem mul_rat (x y : ℚ) : mul x y = x * y := rfl

@[simp] theorem lt_rat (x y : ℚ) : lt x y = decide (x < y) := rfl

@[simp] theorem le_rat (x y : ℚ) : le x y = decide (x ≤ y) := rfl

theorem compare_rat (x y : ℚ) : compare x y = cmp x y := by
  simp [compare, cmp, cmpUsing, show isNaN x = false from rfl, show isNaN y = false from rfl]

@[simp] theorem ceilInt_rat (q : ℚ) : ceilInt q = truncInt ⌈q⌉ := rfl

@[simp] theorem zero_withTop : (zero : WithTop ℚ) = 0 := rfl

@[simp] theorem add_withTop (x y : WithTop ℚ) : add x y = x + y := rfl

@[simp] theorem lt_withTop (x y : WithTop ℚ) : lt x y = decide (x < y) := rfl

@[simp] theorem le_withTop (x y : WithTop ℚ) : le x y = decide (x ≤ y) := rfl

instance : LawfulFloat64 (WithTop ℚ) where
  le_trans hab hbc := decide_eq_true ((of_decide_eq_true hab).trans (of_decide_eq_true hbc))
  le_total := by
    intro a b _ _
    rw [le_withTop, le_withTop, decide_eq_true_iff, decide_eq_true_iff]
    exact LinearOrder.le_total a b
  not_isNaN_of_le _ := ⟨rfl, rfl⟩
  zero_le_max := decide_eq_true le_top
  le_add_zero _ := decide_eq_true (by rw [add_withTop, zero_withTop, add_zero])
  isNaN_add h := by rcases h with h | h <;> cases h
  add_le_add h _ _ := decide_eq_true (by
    rw [add_withTop, add_withTop]
    exact add_le_add (of_decide_eq_true h) le_rfl)
  add_le_add_left h _ _ := decide_eq_true (by
    rw [add_withTop, add_withTop]
    exact add_le_add le_rfl (of_decide_eq_true h))
  isNaN_max_add _ := rfl
  le_of_not_le_max _ hlimit := absurd le_top (of_decide_eq_false hlimit)

/-- Adding up in any loop is taking the sum. -/
theorem foldl_add_rat {α : Type} (f : α → ℚ) (l : List α) :
    l.foldl (fun sum a => add sum (f a)) zero = (l.map f).sum := by
  suffices hacc : ∀ acc : ℚ, l.foldl (fun sum a => add sum (f a)) acc = acc + (l.map f).sum by
    rw [hacc, zero_rat, zero_add]
  intro acc
  induction l generalizing acc with
  | nil => simp
  | cons a l ih => rw [List.foldl_cons, ih, add_rat, List.map_cons, List.sum_cons, add_assoc]

end Float64

end golang
