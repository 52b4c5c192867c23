import Mathlib.Data.List.Infix

namespace trace

variable {α : Type*} {x e : α} {P Q : List α → Prop} {es es' : List α}

/-- Whenever the event happens, what has happened before meets a condition. -/
def Before (x : α) (P : List α → Prop) (es : List α) : Prop := ∀ earlier, earlier ++ [x] <+: es → P earlier

theorem Before.mono (h : Before x P es') (hpre : es <+: es') : Before x P es :=
  fun earlier hearlier => h earlier (hearlier.trans hpre)

theorem Before.imp (h : Before x P es) (himp : ∀ earlier, P earlier → Q earlier) : Before x Q es :=
  fun earlier hearlier => himp earlier (h earlier hearlier)

@[simp] theorem before_nil : Before x P [] := by
  intro earlier hearlier
  cases List.append_ne_nil_of_right_ne_nil _ (List.cons_ne_nil _ _) (List.prefix_nil.mp hearlier)

@[simp] theorem before_cons :
    Before x P (e :: es) ↔ (x = e → P []) ∧ Before x (fun earlier => P (e :: earlier)) es := by
  constructor
  · intro h
    refine ⟨?_, fun earlier hearlier => h (e :: earlier) (List.cons_prefix_cons.mpr ⟨rfl, hearlier⟩)⟩
    rintro rfl
    exact h [] (List.cons_prefix_cons.mpr ⟨rfl, List.nil_prefix⟩)
  · rintro ⟨hfirst, hrest⟩ earlier hearlier
    cases earlier with
    | nil => exact hfirst (List.cons_prefix_cons.mp hearlier).1
    | cons first earlier =>
      obtain ⟨rfl, htail⟩ := List.cons_prefix_cons.mp hearlier
      exact hrest earlier htail

theorem before_append :
    Before x P (es ++ es') ↔ Before x P es ∧ Before x (fun earlier => P (es ++ earlier)) es' := by
  induction es generalizing P with
  | nil => simp
  | cons e es ih => simp only [List.cons_append, before_cons, ih, and_assoc]

section Since

variable {σ : Type*} {P : σ → Prop} {states : List σ} {j k : ℕ}

/-- One of the states that came after the first few ones meets a condition. -/
def Since (k : ℕ) (P : σ → Prop) (states : List σ) : Prop := ∃ s ∈ states.drop k, P s

theorem Since.append (h : Since k P states) (later : List σ) : Since k P (states ++ later) := by
  obtain ⟨s, hmem, hs⟩ := h
  refine ⟨s, ?_, hs⟩
  rw [List.drop_append]
  exact List.mem_append_left _ hmem

theorem Since.mono (h : Since k P states) (hle : j ≤ k) : Since j P states := by
  obtain ⟨s, hmem, hs⟩ := h
  exact ⟨s, List.drop_subset_drop_left states hle hmem, hs⟩

theorem Since.imp {Q : σ → Prop} (h : Since k P states) (himp : ∀ s, P s → Q s) : Since k Q states := by
  obtain ⟨s, hmem, hs⟩ := h
  exact ⟨s, hmem, himp s hs⟩

/-- The last state is one of those that came since. -/
theorem since_last {s : σ} (hle : k ≤ states.length) (hs : P s) : Since k P (states ++ [s]) := by
  refine ⟨s, ?_, hs⟩
  rw [List.drop_append_of_le_length hle]
  exact List.mem_append_right _ List.mem_cons_self

end Since

end trace
