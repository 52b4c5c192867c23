import Mathlib.Data.String.Basic
import Mathlib.Logic.Function.Basic

/-- An encoding that can be read off the front of a text in one way only. -/
class Code (α : Type) where
  encode : α → List Char
  encode_inj : ∀ {a b : α} {rest rest' : List Char}, encode a ++ rest = encode b ++ rest' → a = b ∧ rest = rest'

namespace Code

variable {α β : Type}

theorem encode_injective [Code α] {a b : α} (h : encode a = encode b) : a = b := by
  have happend : encode a ++ [] = encode b ++ [] := by rw [h]
  exact (encode_inj happend).1

/-- Values are encoded like their images under an injection. -/
@[reducible] def comap [Code β] (f : α → β) (hf : Function.Injective f) : Code α where
  encode a := encode (f a)
  encode_inj h := ⟨hf (encode_inj h).1, (encode_inj h).2⟩

instance : Code Unit where
  encode _ := []
  encode_inj h := ⟨rfl, h⟩

instance : Code Char where
  encode c := [c]
  encode_inj h := List.cons.inj h

instance [Code α] [Code β] : Code (α × β) where
  encode p := encode p.1 ++ encode p.2
  encode_inj {p q rest rest'} h := by
    rw [List.append_assoc, List.append_assoc] at h
    obtain ⟨hfst, h⟩ := encode_inj h
    obtain ⟨hsnd, hrest⟩ := encode_inj h
    exact ⟨Prod.ext hfst hsnd, hrest⟩

/-- Every element is announced, and the end is marked. -/
def encodeList [Code α] : List α → List Char
  | [] => [';']
  | a :: l => ',' :: (encode a ++ encodeList l)

theorem encodeList_inj [Code α] {l l' : List α} {rest rest' : List Char}
    (h : encodeList l ++ rest = encodeList l' ++ rest') : l = l' ∧ rest = rest' := by
  induction l generalizing l' with
  | nil =>
    cases l' with
    | nil => exact ⟨rfl, (List.cons.inj h).2⟩
    | cons b l' => exact absurd (List.cons.inj h).1 (by decide)
  | cons a l ih =>
    cases l' with
    | nil => exact absurd (List.cons.inj h).1 (by decide)
    | cons b l' =>
      rw [encodeList, encodeList, List.cons_append, List.cons_append, List.append_assoc, List.append_assoc] at h
      obtain ⟨hhead, htail⟩ := encode_inj (List.cons.inj h).2
      obtain ⟨htail, hrest⟩ := ih htail
      exact ⟨by rw [hhead, htail], hrest⟩

instance [Code α] : Code (List α) := ⟨encodeList, encodeList_inj⟩

instance [Code α] : Code (Option α) := comap Option.toList fun a b h => by
  cases a <;> cases b <;> simp_all

instance : Code String := comap String.toList fun _ _ h => String.toList_injective h

instance : Code Nat := comap (fun n => List.replicate n ()) fun m n h => by
  simpa using congrArg List.length h

instance : Code Int := comap (fun n => (if n < 0 then '-' else '+', n.natAbs)) fun m n h => by
  simp only [Prod.mk.injEq] at h
  obtain ⟨hsign, habs⟩ := h
  split at hsign <;> split at hsign
  all_goals first
    | exact absurd hsign (by decide)
    | omega

end Code
