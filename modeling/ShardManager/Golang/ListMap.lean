import ShardManager.Golang.Map
import Mathlib.Data.List.Perm.Basic

namespace golang

/-- A Go `map[κ][]α`. -/
abbrev ListMap (κ α : Type) := Map κ (List α)

/-- Overwrite position `i` with the last element, then drop the last element. -/
def swapRemove {α : Type} (l : List α) (i : Nat) : List α :=
  match l.getLast? with
  | some last => (l.set i last).dropLast
  | none => []

open List in
theorem perm_swapRemove {α : Type} {l : List α} {i : Nat} {a : α} (h : l[i]? = some a) :
    l.Perm (a :: swapRemove l i) := by
  obtain ⟨hi, rfl⟩ := List.getElem?_eq_some_iff.mp h
  obtain ⟨l₁, l₂, hsplit, hlen⟩ : ∃ l₁ l₂, l = l₁ ++ l[i] :: l₂ ∧ l₁.length = i :=
    ⟨l.take i, l.drop (i + 1), by simp, by simp; omega⟩
  generalize l[i] = a at hsplit
  subst hsplit hlen
  rcases List.eq_nil_or_concat l₂ with rfl | ⟨l₃, b, rfl⟩
  · simp [swapRemove]
  · rw [List.concat_eq_append]
    have hswap : swapRemove (l₁ ++ a :: (l₃ ++ [b])) l₁.length = l₁ ++ b :: l₃ := by
      have hlast : (l₁ ++ a :: (l₃ ++ [b])).getLast? = some b := by
        rw [← List.cons_append, ← List.append_assoc, List.getLast?_concat]
      simp only [swapRemove, hlast, List.set_append_right _ _ (le_refl _), Nat.sub_self,
        List.set_cons_zero]
      rw [← List.cons_append, ← List.append_assoc, List.dropLast_concat]
    rw [hswap]
    calc l₁ ++ a :: (l₃ ++ [b])
      _ = l₁ ++ (a :: l₃ ++ [b]) := by rw [List.cons_append]
      _ ~ l₁ ++ (b :: a :: l₃) := (List.perm_append_singleton b (a :: l₃)).append_left l₁
      _ ~ b :: (l₁ ++ a :: l₃) := List.perm_middle
      _ ~ b :: a :: (l₁ ++ l₃) := List.perm_middle.cons b
      _ ~ a :: b :: (l₁ ++ l₃) := List.Perm.swap a b _
      _ ~ a :: (l₁ ++ b :: l₃) := (List.perm_middle.symm).cons a

namespace ListMap

variable {κ α : Type} [DecidableEq κ]

/-- `m[k]`, nil when missing. -/
def index (m : ListMap κ α) (k : κ) : List α := (m.lookup k).getD []

/-- `m[k] = append(m[k], a)`. -/
def push (m : ListMap κ α) (k : κ) (a : α) : ListMap κ α := m.insert k (index m k ++ [a])

/-- Every element of every list, with repetitions. -/
def elements (m : ListMap κ α) : List α := m.toList.flatMap Prod.snd

theorem index_of_lookup {m : ListMap κ α} {k : κ} {l : List α} (h : m.lookup k = some l) :
    index m k = l := by
  simp [index, h]

theorem index_of_not_mem {m : ListMap κ α} {k : κ} (h : k ∉ m) : index m k = [] := by
  simp [index, AList.lookup_eq_none.mpr h]

theorem lookup_of_mem_index {m : ListMap κ α} {k : κ} {a : α} (h : a ∈ index m k) :
    m.lookup k = some (index m k) := by
  unfold index at h ⊢
  cases hlookup : m.lookup k with
  | none => simp [hlookup] at h
  | some l => rfl

theorem index_insert (m : ListMap κ α) (k k' : κ) (l : List α) :
    index (m.insert k l) k' = if k' = k then l else index m k' := by
  unfold index
  rw [Map.lookup_insert_eq]
  split <;> rfl

theorem index_push (m : ListMap κ α) (k k' : κ) (a : α) :
    index (push m k a) k' = if k' = k then index m k ++ [a] else index m k' :=
  index_insert m k k' _

theorem mem_elements {m : ListMap κ α} {a : α} : a ∈ elements m ↔ ∃ k, a ∈ index m k := by
  simp only [elements, List.mem_flatMap, Prod.exists, Map.mem_toList_iff]
  constructor
  · rintro ⟨k, l, hlookup, ha⟩
    exact ⟨k, by rwa [index_of_lookup hlookup]⟩
  · rintro ⟨k, ha⟩
    exact ⟨k, _, lookup_of_mem_index ha, ha⟩

theorem elements_perm_index (m : ListMap κ α) (k : κ) :
    (elements m).Perm (index m k ++ elements (m.erase k)) := by
  cases hlookup : m.lookup k with
  | none =>
    have hnot : k ∉ m := AList.lookup_eq_none.mp hlookup
    have herase : m.erase k = m := AList.ext (List.kerase_of_notMem_keys hnot)
    rw [index_of_not_mem hnot, herase, List.nil_append]
  | some l =>
    rw [index_of_lookup hlookup]
    have hperm := Map.erase_toList_perm hlookup
    exact hperm.flatMap_right Prod.snd

theorem elements_insert_perm (m : ListMap κ α) (k : κ) (l : List α) :
    (elements (m.insert k l)).Perm (l ++ elements (m.erase k)) := by
  have hperm := elements_perm_index (m.insert k l) k
  have herase : (m.insert k l).erase k = m.erase k := by
    apply AList.ext
    have hcons : List.kerase k ((⟨k, l⟩ : Sigma fun _ : κ => List α) :: List.kerase k m.entries) =
        List.kerase k m.entries := List.kerase_cons_eq rfl
    exact hcons
  rwa [index_insert, if_pos rfl, herase] at hperm

/-- Removing one occurrence of an element from a list. -/
theorem elements_perm_of_index_perm {m : ListMap κ α} {k : κ} {a : α} {rest : List α}
    (h : (index m k).Perm (a :: rest)) : (elements m).Perm (a :: elements (m.insert k rest)) := by
  have hold := (elements_perm_index m k).trans (h.append_right _)
  have hnew := (elements_insert_perm m k rest).cons a
  exact hold.trans hnew.symm

theorem elements_push_perm (m : ListMap κ α) (k : κ) (a : α) :
    (elements (push m k a)).Perm (a :: elements m) := by
  have hnew := elements_insert_perm m k (index m k ++ [a])
  have hold := (elements_perm_index m k).cons a
  have hshift : (index m k ++ [a] ++ elements (m.erase k)).Perm
      (a :: (index m k ++ elements (m.erase k))) := by
    rw [List.append_assoc]
    exact List.perm_middle
  exact (hnew.trans hshift).trans hold.symm

/-- When no element repeats, each is in one list only. -/
theorem index_unique {m : ListMap κ α} (h : (elements m).Nodup) {k k' : κ} {a : α}
    (hk : a ∈ index m k) (hk' : a ∈ index m k') : k = k' := by
  by_contra hne
  have hperm := (elements_perm_index m k).nodup_iff.mp h
  have hmem : a ∈ elements (m.erase k) := by
    rw [mem_elements]
    refine ⟨k', ?_⟩
    have herase : (m.erase k).lookup k' = m.lookup k' := AList.lookup_erase_ne (Ne.symm hne)
    rwa [index, herase]
  exact (List.nodup_append.mp hperm).2.2 a hk a hmem rfl

theorem index_nodup {m : ListMap κ α} (h : (elements m).Nodup) (k : κ) : (index m k).Nodup := by
  have hperm := (elements_perm_index m k).nodup_iff.mp h
  exact (List.nodup_append.mp hperm).1

end ListMap

end golang
