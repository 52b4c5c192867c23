import Mathlib.Data.List.Nodup

namespace chunk

variable {α : Type*}

/-- A list cut into pieces of a size; the last one may be shorter. -/
def chunks (size : Nat) : List α → List (List α)
  | [] => []
  | a :: l => (a :: l.take (size - 1)) :: chunks size (l.drop (size - 1))
termination_by l => l.length
decreasing_by
  rw [List.length_drop, List.length_cons]
  omega

@[simp] theorem chunks_nil (size : Nat) : chunks size ([] : List α) = [] := by
  rw [chunks]

theorem chunks_of_ne_nil {size : Nat} (hsize : 0 < size) {l : List α} (hne : l ≠ []) :
    chunks size l = l.take size :: chunks size (l.drop size) := by
  obtain ⟨n, rfl⟩ := Nat.exists_eq_add_of_lt hsize
  cases l with
  | nil => exact absurd rfl hne
  | cons a l =>
    rw [chunks]
    simp

/-- What holds of the pieces of every list: the rule for a loop that takes one
piece after another. -/
theorem chunks_induction {size : Nat} (hsize : 0 < size) {P : List α → List (List α) → Prop} (hnil : P [] [])
    (hcons : ∀ l, l ≠ [] → P (l.drop size) (chunks size (l.drop size)) →
      P l (l.take size :: chunks size (l.drop size))) (l : List α) : P l (chunks size l) := by
  induction hlength : l.length using Nat.strongRecOn generalizing l with
  | ind n ih =>
    by_cases hne : l = []
    · rw [hne, chunks_nil]
      exact hnil
    · have hpos := List.length_pos_iff.mpr hne
      rw [chunks_of_ne_nil hsize hne]
      refine hcons l hne (ih _ ?_ _ rfl)
      rw [List.length_drop]
      omega

/-- Nothing is lost, doubled or moved. -/
theorem flatten_chunks {size : Nat} (hsize : 0 < size) (l : List α) : (chunks size l).flatten = l := by
  refine chunks_induction hsize (P := fun l pieces => pieces.flatten = l) rfl (fun l _ ih => ?_) l
  rw [List.flatten_cons, ih, List.take_append_drop]

theorem forall_mem_chunks {size : Nat} (hsize : 0 < size) (l : List α) :
    ∀ piece ∈ chunks size l, piece ≠ [] ∧ piece.length ≤ size := by
  refine chunks_induction hsize (P := fun _ pieces => ∀ piece ∈ pieces, piece ≠ [] ∧ piece.length ≤ size)
    (List.forall_mem_nil _) (fun l hne ih => ?_) l
  refine List.forall_mem_cons.mpr ⟨⟨?_, List.length_take_le size l⟩, ih⟩
  rw [Ne, List.take_eq_nil_iff]
  exact fun h => h.elim (Nat.ne_of_gt hsize) hne

theorem length_chunks_le {size : Nat} (hsize : 0 < size) (l : List α) : (chunks size l).length ≤ l.length := by
  refine chunks_induction hsize (P := fun l pieces => pieces.length ≤ l.length) (Nat.le_refl 0) (fun l hne ih => ?_) l
  have hpos := List.length_pos_iff.mpr hne
  rw [List.length_drop] at ih
  rw [List.length_cons]
  omega

theorem chunks_map {β : Type*} {size : Nat} (hsize : 0 < size) (f : α → β) (l : List α) :
    chunks size (l.map f) = (chunks size l).map (List.map f) := by
  refine chunks_induction hsize (P := fun l pieces => chunks size (l.map f) = pieces.map (List.map f)) ?_
    (fun l hne ih => ?_) l
  · rw [List.map_nil, chunks_nil, List.map_nil]
  · rw [chunks_of_ne_nil hsize (by simpa using hne), List.map_cons, ← ih, List.map_take, List.map_drop]

/-- No piece repeats anything exactly if no two positions of a piece hold the
same. -/
theorem nodup_chunks_iff {size : Nat} (hsize : 0 < size) (l : List α) :
    (∀ piece ∈ chunks size l, piece.Nodup) ↔
      ∀ p q a, p < q → p / size = q / size → l[p]? = some a → l[q]? ≠ some a := by
  refine chunks_induction hsize (P := fun l pieces => (∀ piece ∈ pieces, piece.Nodup) ↔
    ∀ p q a, p < q → p / size = q / size → l[p]? = some a → l[q]? ≠ some a) ?_ (fun l _ ih => ?_) l
  · simp
  rw [List.forall_mem_cons, ih, List.nodup_iff_getElem?_ne_getElem?]
  constructor
  · rintro ⟨hfirst, hrest⟩ p q a hlt hdiv hp hq
    by_cases hsmall : q < size
    · have hbound := (List.getElem?_eq_some_iff.mp hq).1
      refine hfirst p q hlt ?_ ?_
      · rw [List.length_take]
        omega
      · rw [List.getElem?_take_of_lt (by omega), List.getElem?_take_of_lt hsmall, hp, hq]
    · -- Neither position is in the first piece.
      have hle : size ≤ p := by
        by_contra hp'
        have hpos := Nat.div_pos (Nat.not_lt.mp hsmall) hsize
        rw [Nat.div_eq_of_lt (Nat.not_le.mp hp')] at hdiv
        omega
      obtain ⟨p', rfl⟩ := Nat.exists_eq_add_of_le hle
      obtain ⟨q', rfl⟩ := Nat.exists_eq_add_of_le (by omega : size ≤ q)
      rw [Nat.add_div_left _ hsize, Nat.add_div_left _ hsize] at hdiv
      refine hrest p' q' a (by omega) (by omega) ?_ ?_
      · rw [List.getElem?_drop, hp]
      · rw [List.getElem?_drop, hq]
  · intro hall
    refine ⟨fun p q hlt hbound heq => ?_, fun p q a hlt hdiv hp hq => ?_⟩
    · rw [List.length_take] at hbound
      rw [List.getElem?_take_of_lt (by omega), List.getElem?_take_of_lt (by omega)] at heq
      obtain ⟨a, hq⟩ : ∃ a, l[q]? = some a := ⟨_, List.getElem?_eq_getElem (by omega)⟩
      refine hall p q a hlt ?_ (heq.trans hq) hq
      rw [Nat.div_eq_of_lt (by omega), Nat.div_eq_of_lt (by omega)]
    · rw [List.getElem?_drop] at hp hq
      refine hall (size + p) (size + q) a (by omega) ?_ hp hq
      rw [Nat.add_div_left _ hsize, Nat.add_div_left _ hsize, hdiv]

section Count

variable {n d e : Int}

/-- At least one piece is needed for something. -/
theorem ceil_pos (hn : 0 < n) (hd : 0 < d) : 0 < (n + d - 1) / d := by
  have hone : 1 ≤ (n + d - 1) / d := by
    rw [Int.le_ediv_iff_mul_le hd]
    omega
  omega

/-- The pieces cover what is cut. -/
theorem le_ceil_mul (hd : 0 < d) : n ≤ (n + d - 1) / d * d := by
  have hlt := Int.lt_ediv_add_one_mul_self (n + d - 1) hd
  rw [Int.add_mul, Int.one_mul] at hlt
  omega

/-- No more pieces are needed than cover it. -/
theorem ceil_le (hd : 0 < d) (h : n ≤ e * d) : (n + d - 1) / d ≤ e := by
  have hlt : n + d - 1 < (e + 1) * d := by
    rw [Int.add_mul, Int.one_mul]
    omega
  have := Int.ediv_lt_of_lt_mul hd hlt
  omega

/-- The size of the pieces when something is cut into as many as a limit needs,
of about equal size. -/
def evenSize (n d : Int) : Int := (n + (n + d - 1) / d - 1) / ((n + d - 1) / d)

theorem evenSize_pos (hn : 0 < n) (hd : 0 < d) : 0 < evenSize n d := ceil_pos hn (ceil_pos hn hd)

theorem evenSize_le (hn : 0 < n) (hd : 0 < d) : evenSize n d ≤ d := by
  refine ceil_le (ceil_pos hn hd) ?_
  rw [Int.mul_comm]
  exact le_ceil_mul hd

/-- What the limit allows at once is one piece. -/
theorem evenSize_of_le (hn : 0 < n) (h : n ≤ d) : evenSize n d = n := by
  have hd : 0 < d := by omega
  have hge := ceil_pos hn hd
  have hle := ceil_le hd (by omega : n ≤ 1 * d)
  have hone : (n + d - 1) / d = 1 := by omega
  rw [evenSize, hone, Int.ediv_one]
  omega

end Count

end chunk
