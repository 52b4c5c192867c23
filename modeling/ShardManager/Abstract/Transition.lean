import Mathlib.Logic.Relation
import Mathlib.Order.Basic

namespace transition

variable {σ ι : Type*}

/-- The runs of an executable step function whose steps all meet a condition
on the state they start from. -/
def Run (step : ι → σ → Option σ) (meets : σ → ι → Prop) : σ → σ → Prop :=
  Relation.ReflTransGen fun s s' => ∃ label, meets s label ∧ step label s = some s'

/-- The runs without a condition. -/
abbrev Reaches (step : ι → σ → Option σ) : σ → σ → Prop := Run step fun _ _ => True

variable {step : ι → σ → Option σ} {meets : σ → ι → Prop} {s s' : σ}

/-- What holds at the start and is kept by every step holds along every run. -/
theorem Run.invariant (I : σ → Prop)
    (hstep : ∀ s label s', I s → meets s label → step label s = some s' → I s')
    (hrun : Run step meets s s') (hinit : I s) : I s' := by
  induction hrun with
  | refl => exact hinit
  | tail _ hlast ih =>
    obtain ⟨label, hmeets, hstep'⟩ := hlast
    exact hstep _ label _ ih hmeets hstep'

/-- A version that every visible step raises: it never decreases along a run,
and between two states with the same version nothing visible happened. -/
theorem Run.versioned {ν : Type*} [PartialOrder ν] (version : σ → ν) (Same : σ → σ → Prop)
    (hrefl : ∀ s, Same s s) (htrans : ∀ {a b c}, Same a b → Same b c → Same a c) (I : σ → Prop)
    (hstep : ∀ s label s', I s → meets s label → step label s = some s' →
      I s' ∧ (version s < version s' ∨ version s = version s' ∧ Same s s'))
    (hrun : Run step meets s s') (hinit : I s) :
    I s' ∧ version s ≤ version s' ∧ (version s = version s' → Same s s') := by
  refine hrun.invariant (fun x => I x ∧ version s ≤ version x ∧ (version s = version x → Same s x)) ?_
    ⟨hinit, le_rfl, fun _ => hrefl s⟩
  rintro a label b ⟨hinv, hle, hsame⟩ hmeets hab
  obtain ⟨hinv', hlt | ⟨heq, hsame'⟩⟩ := hstep a label b hinv hmeets hab
  · exact ⟨hinv', hle.trans hlt.le, fun h => absurd h (hle.trans_lt hlt).ne⟩
  · exact ⟨hinv', heq ▸ hle, fun h => htrans (hsame (h.trans heq.symm)) hsame'⟩

/-- What holds of every component of a system still does when a component that
it holds of is added. -/
theorem forall_mem_concat {α : Type*} {l : List α} {p : α → Prop} {a : α} (h : ∀ x ∈ l, p x) (ha : p a) :
    ∀ x ∈ l ++ [a], p x :=
  List.forall_mem_append.mpr ⟨h, List.forall_mem_singleton.mpr ha⟩

/-- What holds of every component of a system still does when one of them takes
a step to a component it holds of. -/
theorem forall_mem_set {α : Type*} {l : List α} {p : α → Prop} {i : ℕ} {a : α} (h : ∀ x ∈ l, p x) (ha : p a) :
    ∀ x ∈ l.set i a, p x := by
  intro x hx
  rcases List.mem_or_eq_of_mem_set hx with hx | rfl
  · exact h x hx
  · exact ha

/-- What holds of every component of a system still does when one of them ends. -/
theorem forall_mem_eraseIdx {α : Type*} {l : List α} {p : α → Prop} {i : ℕ} (h : ∀ x ∈ l, p x) :
    ∀ x ∈ l.eraseIdx i, p x :=
  fun x hx => h x (List.mem_of_mem_eraseIdx hx)

/-- Executing a list of labels is a run whose steps meet a condition, if an
executable check of the condition lets them all through. -/
theorem run_of_foldlM (check : σ → ι → Bool) (hcheck : ∀ s label, check s label = true → meets s label)
    {labels : List ι}
    (h : labels.foldlM (fun s label => if check s label then step label s else none) s = some s') :
    Run step meets s s' := by
  induction labels generalizing s with
  | nil =>
    cases h
    exact .refl
  | cons label labels ih =>
    rw [List.foldlM_cons] at h
    obtain ⟨next, hnext, h⟩ := Option.bind_eq_some_iff.mp h
    split at hnext
    case isTrue hmeets => exact .head ⟨label, hcheck s label hmeets, hnext⟩ (ih h)
    case isFalse => cases hnext

/-- Executing a list of labels is a run. -/
theorem reaches_of_foldlM {labels : List ι} (h : labels.foldlM (fun s label => step label s) s = some s') :
    Reaches step s s' :=
  run_of_foldlM (fun _ _ => true) (fun _ _ _ => trivial) h

end transition
