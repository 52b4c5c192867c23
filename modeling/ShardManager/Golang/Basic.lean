import Mathlib.Algebra.Ring.Int.Defs
import Mathlib.Algebra.Ring.Nat
import Mathlib.Data.Int.Order.Basic

namespace golang

/-- An instant, in nanoseconds since the zero `time.Time`. -/
abbrev Time := Int

/-- A `time.Duration`, in nanoseconds. -/
abbrev Duration := Int

namespace Time

def isZero (t : Time) : Bool := t == 0

def minDuration : Duration := -2 ^ 63

def maxDuration : Duration := 2 ^ 63 - 1

/-- `t.Sub(u)` saturates at the ends of the `Duration` range. -/
def sub (t u : Time) : Duration :=
  max minDuration (min maxDuration (t - u))

end Time

/-- An `int` after wrapping around. -/
def int64 (n : Int) : Int := n.bmod (2 ^ 64)

theorem int64_of_fits {n : Int} (hle : -2 ^ 63 ≤ n) (hlt : n < 2 ^ 63) : int64 n = n := by
  rw [int64, Int.bmod_def]
  omega

theorem int64_of_overflow {n : Int} (hle : 2 ^ 63 ≤ n) (hlt : n < 2 ^ 63 + 2 ^ 64) : int64 n = n - 2 ^ 64 := by
  rw [int64, Int.bmod_def]
  omega

theorem int64_of_underflow {n : Int} (hle : -2 ^ 63 - 2 ^ 64 ≤ n) (hlt : n < -2 ^ 63) : int64 n = n + 2 ^ 64 := by
  rw [int64, Int.bmod_def]
  omega

theorem int64_lt (n : Int) : int64 n < 2 ^ 63 := by
  rw [int64, Int.bmod_def]
  omega

/-- How a Go call ends when it does not return a value. -/
inductive Failure where
  | error (message : String)
  | panic (reason : String)
deriving DecidableEq, Repr

/-- `fmt.Errorf("context: %w", err)`; a panic passes through. -/
def Failure.wrap (context : String) : Failure → Failure
  | .error message => .error (context ++ ": " ++ message)
  | .panic reason => .panic reason

/-- The largest block the runtime allocates on 64-bit platforms. -/
def maxAlloc : Int := 2 ^ 48

/-- The check of `make([]T, 0, cap)` for elements of a given size. Whether the
machine has the memory is not modelled. -/
def makeslice (elemSize cap : Int) : Except Failure Unit :=
  if cap < 0 ∨ maxAlloc < elemSize * cap then .error (.panic "runtime error: makeslice: cap out of range") else .ok ()

variable {ε α β : Type}

theorem bind_eq_ok_iff {x : Except ε α} {f : α → Except ε β} {b : β} :
    (x >>= f) = .ok b ↔ ∃ a, x = .ok a ∧ f a = .ok b := by
  cases x with
  | error e =>
    constructor
    · intro h
      cases h
    · rintro ⟨a, h, -⟩
      cases h
  | ok a =>
    constructor
    · intro h
      exact ⟨a, rfl, h⟩
    · rintro ⟨a', h, hf⟩
      cases h
      exact hf

theorem mapError_eq_ok_iff {x : Except ε α} {f : ε → β} {a : α} :
    x.mapError f = .ok a ↔ x = .ok a := by
  cases x <;> simp [Except.mapError]

theorem exists_ok_of_isOk {x : Except ε α} (h : x.isOk = true) : ∃ a, x = .ok a := by
  cases x with
  | error e => cases h
  | ok a => exact ⟨a, rfl⟩

theorem toOption_eq_some_iff {x : Except ε α} {a : α} : x.toOption = some a ↔ x = .ok a := by
  cases x <;> simp [Except.toOption]

/-- A loop that only checks its entries passes only if every entry does. -/
theorem ok_of_forM {f : α → Except ε Unit} {l : List α} (h : l.forM f = .ok ()) {a : α} (ha : a ∈ l) :
    f a = .ok () := by
  induction l with
  | nil => cases ha
  | cons first rest ih =>
    obtain ⟨_, hfirst, hrest⟩ := bind_eq_ok_iff.mp h
    rcases List.mem_cons.mp ha with rfl | ha
    · exact hfirst
    · exact ih hrest ha

/-- It passes if every entry does. -/
theorem forM_ok {f : α → Except ε Unit} {l : List α} (h : ∀ a ∈ l, f a = .ok ()) : l.forM f = .ok () := by
  induction l with
  | nil => rfl
  | cons first rest ih =>
    obtain ⟨hfirst, hrest⟩ := List.forall_mem_cons.mp h
    exact bind_eq_ok_iff.mpr ⟨(), hfirst, ih hrest⟩

/-- A loop whose steps succeed or fail by what they visit succeeds exactly if
all steps do. -/
theorem foldlM_isOk_iff {ε α β : Type} {step : β → α → Except ε β} {good : α → Prop}
    (hstep : ∀ acc a, (∃ acc', step acc a = .ok acc') ↔ good a) {l : List α} {acc : β} :
    (∃ result, l.foldlM step acc = .ok result) ↔ ∀ a ∈ l, good a := by
  induction l generalizing acc with
  | nil => exact ⟨fun _ => List.forall_mem_nil _, fun _ => ⟨acc, rfl⟩⟩
  | cons a l ih =>
    rw [List.forall_mem_cons, List.foldlM_cons]
    constructor
    · rintro ⟨result, h⟩
      obtain ⟨next, hnext, h⟩ := bind_eq_ok_iff.mp h
      exact ⟨(hstep acc a).mp ⟨next, hnext⟩, ih.mp ⟨result, h⟩⟩
    · rintro ⟨hgood, hrest⟩
      obtain ⟨next, hnext⟩ := (hstep acc a).mpr hgood
      obtain ⟨result, h⟩ := ih.mpr hrest
      exact ⟨result, bind_eq_ok_iff.mpr ⟨next, hnext, h⟩⟩

/-- An invariant of a loop that can fail, in terms of the entries visited. -/
theorem foldlM_ok_induction {σ : Type} {f : σ → α → Except ε σ} {l : List α} {init result : σ}
    (P : List α → σ → Prop) (hnil : P [] init)
    (hstep : ∀ seen a rest acc acc', l = seen ++ a :: rest → P seen acc → f acc a = .ok acc' →
      P (seen ++ [a]) acc')
    (h : l.foldlM f init = .ok result) : P l result := by
  suffices hrun : ∀ (rest seen : List α) (acc : σ), l = seen ++ rest → P seen acc →
      rest.foldlM f acc = .ok result → P l result from hrun l [] init rfl hnil h
  intro rest
  induction rest with
  | nil =>
    intro seen acc hl hacc hfold
    cases hfold
    rwa [hl, List.append_nil]
  | cons a rest ih =>
    intro seen acc hl hacc hfold
    rw [List.foldlM_cons] at hfold
    obtain ⟨acc', hf, hfold⟩ := bind_eq_ok_iff.mp hfold
    exact ih (seen ++ [a]) acc' (by simp [hl]) (hstep seen a rest acc acc' hl hacc hf) hfold

end golang
