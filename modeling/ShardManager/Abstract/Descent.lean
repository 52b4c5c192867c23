import Mathlib.Algebra.BigOperators.Ring.Finset
import Mathlib.Data.Finset.Powerset
import Mathlib.Data.Fintype.BigOperators

namespace descent

section Rank

variable {α : Type*} [LinearOrder α] {values : Finset α} {x y : α}

/-- How often one can still step down from a value within a finite set. -/
def rank (values : Finset α) (x : α) : ℕ := (values.filter (· < x)).card

theorem rank_lt_rank (hmem : y ∈ values) (hlt : y < x) : rank values y < rank values x := by
  refine Finset.card_lt_card (Finset.ssubset_iff_of_subset ?_ |>.mpr ⟨y, ?_, ?_⟩)
  · exact fun z hz => Finset.mem_filter.mpr
      ⟨(Finset.mem_filter.mp hz).1, (Finset.mem_filter.mp hz).2.trans hlt⟩
  · exact Finset.mem_filter.mpr ⟨hmem, hlt⟩
  · exact fun hy => lt_irrefl y (Finset.mem_filter.mp hy).2

theorem rank_lt_card (hmem : x ∈ values) : rank values x < values.card := by
  refine Finset.card_lt_card (Finset.ssubset_iff_of_subset (Finset.filter_subset _ _) |>.mpr ⟨x, hmem, ?_⟩)
  exact fun hx => lt_irrefl x (Finset.mem_filter.mp hx).2

end Rank

section Cost

variable {κ σ R : Type*} [DecidableEq κ] [CommSemiring R]

/-- The squared loads of the holders, added up. -/
def cost (weight : σ → R) (holders : Finset κ) (held : κ → Finset σ) : R :=
  ∑ holder ∈ holders, (∑ item ∈ held holder, weight item) * ∑ item ∈ held holder, weight item

/-- The costs of all ways to give each holder some of the items. -/
def costs [DecidableEq R] (weight : σ → R) (holders : Finset κ) (items : Finset σ) : Finset R :=
  (holders.pi fun _ => items.powerset).image fun held =>
    ∑ holder ∈ holders.attach, (∑ item ∈ held holder holder.2, weight item) *
      ∑ item ∈ held holder holder.2, weight item

variable {weight : σ → R} {holders : Finset κ} {items : Finset σ}

theorem cost_mem_costs [DecidableEq R] {held : κ → Finset σ} (h : ∀ holder ∈ holders, held holder ⊆ items) :
    cost weight holders held ∈ costs weight holders items := by
  refine Finset.mem_image.mpr ⟨fun holder _ => held holder, Finset.mem_pi.mpr ?_, ?_⟩
  · exact fun holder hmem => Finset.mem_powerset.mpr (h holder hmem)
  · exact Finset.sum_attach holders fun holder =>
      (∑ item ∈ held holder, weight item) * ∑ item ∈ held holder, weight item

theorem card_costs_le [DecidableEq R] (weight : σ → R) (holders : Finset κ) (items : Finset σ) :
    (costs weight holders items).card ≤ (2 ^ items.card) ^ holders.card := by
  refine Finset.card_image_le.trans ?_
  rw [Finset.card_pi, Finset.prod_const, Finset.card_powerset]

end Cost

end descent
