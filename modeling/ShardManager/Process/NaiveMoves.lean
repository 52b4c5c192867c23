import Mathlib.Algebra.Order.BigOperators.Group.List
import ShardManager.Abstract.Balance
import ShardManager.Golang.Rational
import ShardManager.Process.Planning

open golang golang.Float64 store plan

namespace naive

section Loads

/-- The documentation asks for reports that are finite and not negative. -/
def NonnegativeReports (state : NamespaceState (WithTop ℚ)) : Prop :=
  ∀ executor ∈ state.executors.toList, ∀ reported ∈ executor.2.reportedShards.toList,
    ∀ report ∈ reported.2, 0 ≤ report.shardLoad ∧ report.shardLoad < ⊤

instance (state : NamespaceState (WithTop ℚ)) : Decidable (NonnegativeReports state) :=
  inferInstanceAs (Decidable (∀ executor ∈ state.executors.toList, ∀ reported ∈ executor.2.reportedShards.toList,
    ∀ report ∈ reported.2, 0 ≤ report.shardLoad ∧ report.shardLoad < ⊤))

/-- The load of a shard as a rational. -/
def weight (shardLoad : Map String (WithTop ℚ)) (shardID : String) : ℚ := (loadOf shardLoad shardID).untopD 0

/-- The load of an executor with a given list of shards. -/
def total (shardLoad : Map String (WithTop ℚ)) (shardIDs : List String) : ℚ := (shardIDs.map (weight shardLoad)).sum

/-- All loads are rationals and none is negative. -/
structure Measured (shardLoad : Map String (WithTop ℚ)) : Prop where
  loadOf_eq : ∀ shardID, loadOf shardLoad shardID = weight shardLoad shardID
  nonneg : ∀ shardID, 0 ≤ weight shardLoad shardID

/-- Whichever report of a shard is used, its load is measured; a shard without
a report weighs nothing. -/
theorem measured_calcShardLoad (order : RangeOrder) {state : NamespaceState (WithTop ℚ)}
    (h : NonnegativeReports state) : Measured (calcShardLoad order state) := by
  have hload : ∀ shardID, ∃ load : ℚ, loadOf (calcShardLoad order state) shardID = load ∧ 0 ≤ load := by
    intro shardID
    rw [loadOf]
    cases hlookup : (calcShardLoad order state).lookup shardID with
    | none => exact ⟨0, rfl, le_rfl⟩
    | some load =>
      have hmem := Map.mem_of_lookup_ofList hlookup
      obtain ⟨executor, hexecutor, hmem⟩ := List.mem_flatMap.mp hmem
      obtain ⟨⟨shardID', report⟩, hreported, hreport⟩ := List.mem_filterMap.mp hmem
      cases report with
      | none => cases hreport
      | some report =>
        cases hreport
        rw [(order.range_perm _ _).mem_iff] at hexecutor hreported
        obtain ⟨hnonneg, hfinite⟩ := h executor hexecutor (shardID, some report) hreported report rfl
        obtain ⟨load, hload⟩ := WithTop.ne_top_iff_exists.mp hfinite.ne
        rw [← hload] at hnonneg
        exact ⟨load, hload.symm, WithTop.coe_le_coe.mp hnonneg⟩
  constructor
  · intro shardID
    obtain ⟨load, heq, -⟩ := hload shardID
    rw [weight, heq, WithTop.untopD_coe]
  · intro shardID
    obtain ⟨load, heq, hnonneg⟩ := hload shardID
    rw [weight, heq, WithTop.untopD_coe]
    exact hnonneg

variable {shardLoad : Map String (WithTop ℚ)}

theorem executorLoad_eq (h : Measured shardLoad) (shardIDs : List String) :
    executorLoad shardLoad shardIDs = total shardLoad shardIDs := by
  suffices hacc : ∀ sum : ℚ, shardIDs.foldl (fun sum shardID => add sum (loadOf shardLoad shardID)) (sum : WithTop ℚ) =
      ((sum + total shardLoad shardIDs : ℚ) : WithTop ℚ) by
    have hzero := hacc 0
    rwa [zero_add] at hzero
  induction shardIDs with
  | nil => simp [total]
  | cons shardID rest ih =>
    intro sum
    rw [List.foldl_cons, add_withTop, h.loadOf_eq, ← WithTop.coe_add, ih, total, total, List.map_cons, List.sum_cons,
      add_assoc]

theorem total_nonneg (h : Measured shardLoad) (shardIDs : List String) : 0 ≤ total shardLoad shardIDs := by
  refine List.sum_nonneg fun load hload => ?_
  obtain ⟨shardID, -, rfl⟩ := List.mem_map.mp hload
  exact h.nonneg shardID

/-- One of the shards of the list has the largest load. -/
def IsHottest (shardLoad : Map String (WithTop ℚ)) (shardIDs : List String) (shardID : String) : Prop :=
  shardID ∈ shardIDs ∧ ∀ other ∈ shardIDs, weight shardLoad other ≤ weight shardLoad shardID

/-- Whatever shard was found on an earlier executor, a list with shards
replaces it by its own hottest one. -/
theorem hottestShard_spec (h : Measured shardLoad) (before : String) (shardIDs : List String) :
    hottestShard shardLoad before shardIDs = (before, 0) ∧ shardIDs = [] ∨
      ∃ shardID, hottestShard shardLoad before shardIDs = (shardID, (weight shardLoad shardID : WithTop ℚ)) ∧
        IsHottest shardLoad shardIDs shardID := by
  unfold hottestShard
  -- The scan has seen a front part of the list, whose hottest shard it holds.
  induction shardIDs using List.reverseRecOn with
  | nil => exact .inl ⟨rfl, rfl⟩
  | append_singleton seen shardID ih =>
    right
    rw [List.foldl_append, List.foldl_cons, List.foldl_nil]
    rcases ih with ⟨heq, rfl⟩ | ⟨best, heq, hmem, hle⟩
    · refine ⟨shardID, ?_, ?_⟩
      · have hzero : (0 : WithTop ℚ) ≤ weight shardLoad shardID := WithTop.coe_le_coe.mpr (h.nonneg shardID)
        rw [heq, hotterShard, h.loadOf_eq, le_withTop, if_pos (decide_eq_true hzero)]
      · simp [IsHottest]
    · rw [heq, hotterShard, h.loadOf_eq, le_withTop]
      split
      · rename_i hbest
        have hbest := WithTop.coe_le_coe.mp (of_decide_eq_true hbest)
        refine ⟨shardID, rfl, by simp, List.forall_mem_append.mpr ⟨?_, List.forall_mem_singleton.mpr le_rfl⟩⟩
        exact fun other hother => (hle other hother).trans hbest
      · rename_i hbest
        rw [decide_eq_true_iff, WithTop.coe_le_coe, not_le] at hbest
        refine ⟨best, rfl, List.mem_append_left _ hmem, ?_⟩
        exact List.forall_mem_append.mpr ⟨hle, List.forall_mem_singleton.mpr hbest.le⟩

end Loads

section Scan

variable {shardLoad : Map String (WithTop ℚ)}

/-- The coldest executor of the scan is one of those visited. -/
structure Coldest (shardLoad : Map String (WithTop ℚ)) (visited : List (String × List String))
    (x : Extremes (WithTop ℚ)) (entry : String × List String) : Prop where
  mem : entry ∈ visited
  id : x.coldestExecutorID = entry.1
  load : x.coldestExecutorLoad = total shardLoad entry.2
  le : ∀ other ∈ visited, total shardLoad entry.2 ≤ total shardLoad other.2

/-- So is the hottest, and unless it has no shards the tracked shard is its
own hottest one. -/
structure Hottest (shardLoad : Map String (WithTop ℚ)) (visited : List (String × List String))
    (x : Extremes (WithTop ℚ)) (entry : String × List String) : Prop where
  mem : entry ∈ visited
  id : x.hottestExecutorID = entry.1
  load : x.hottestExecutorLoad = total shardLoad entry.2
  le : ∀ other ∈ visited, total shardLoad other.2 ≤ total shardLoad entry.2
  shard : x.hottestShardLoad = 0 ∧ entry.2 = [] ∨
    x.hottestShardLoad = weight shardLoad x.hottestShardID ∧ IsHottest shardLoad entry.2 x.hottestShardID

theorem Extremes.visit_coldestExecutor (shardLoad : Map String (WithTop ℚ)) (x : Extremes (WithTop ℚ)) (executorID : String)
    (shardIDs : List String) :
    (x.visit shardLoad executorID shardIDs).coldestExecutorLoad =
        (if executorLoad shardLoad shardIDs ≤ x.coldestExecutorLoad then executorLoad shardLoad shardIDs
          else x.coldestExecutorLoad) ∧
      (x.visit shardLoad executorID shardIDs).coldestExecutorID =
        if executorLoad shardLoad shardIDs ≤ x.coldestExecutorLoad then executorID else x.coldestExecutorID := by
  unfold Extremes.visit
  simp only [le_withTop, decide_eq_true_eq]
  constructor
  · split <;> split <;> rfl
  · split <;> split <;> rfl

theorem Coldest.visit (h : Measured shardLoad) {visited : List (String × List String)} {x : Extremes (WithTop ℚ)}
    (hx : x.coldestExecutorLoad = ⊤ ∧ visited = [] ∨ ∃ entry, Coldest shardLoad visited x entry)
    (entry : String × List String) :
    ∃ coldest, Coldest shardLoad (visited ++ [entry]) (x.visit shardLoad entry.1 entry.2) coldest := by
  obtain ⟨hload, hid⟩ := Extremes.visit_coldestExecutor shardLoad x entry.1 entry.2
  rw [executorLoad_eq h] at hload hid
  have hnew : (total shardLoad entry.2 : WithTop ℚ) ≤ x.coldestExecutorLoad →
      (∀ other ∈ visited, total shardLoad entry.2 ≤ total shardLoad other.2) →
      Coldest shardLoad (visited ++ [entry]) (x.visit shardLoad entry.1 entry.2) entry := by
    intro hle hothers
    rw [if_pos hle] at hload hid
    exact ⟨by simp, hid, hload, List.forall_mem_append.mpr ⟨hothers, List.forall_mem_singleton.mpr le_rfl⟩⟩
  rcases hx with ⟨htop, rfl⟩ | ⟨coldest, hcoldest⟩
  · exact ⟨entry, hnew (htop ▸ le_top) (by simp)⟩
  · by_cases hle : (total shardLoad entry.2 : WithTop ℚ) ≤ x.coldestExecutorLoad
    · refine ⟨entry, hnew hle fun other hother => ?_⟩
      rw [hcoldest.load, WithTop.coe_le_coe] at hle
      exact hle.trans (hcoldest.le other hother)
    · rw [if_neg hle] at hload hid
      rw [hcoldest.load, WithTop.coe_le_coe, not_le] at hle
      refine ⟨coldest, List.mem_append_left _ hcoldest.mem, hid.trans hcoldest.id, hload.trans hcoldest.load, ?_⟩
      exact List.forall_mem_append.mpr ⟨hcoldest.le, List.forall_mem_singleton.mpr hle.le⟩

/-- The three variables that only a hottest executor overwrites. -/
theorem Extremes.visit_hottestExecutor (shardLoad : Map String (WithTop ℚ)) (x : Extremes (WithTop ℚ)) (executorID : String)
    (shardIDs : List String) :
    if x.hottestExecutorLoad ≤ executorLoad shardLoad shardIDs then
      (x.visit shardLoad executorID shardIDs).hottestExecutorLoad = executorLoad shardLoad shardIDs ∧
        (x.visit shardLoad executorID shardIDs).hottestExecutorID = executorID ∧
        ((x.visit shardLoad executorID shardIDs).hottestShardID,
          (x.visit shardLoad executorID shardIDs).hottestShardLoad) =
            hottestShard shardLoad x.hottestShardID shardIDs
    else
      (x.visit shardLoad executorID shardIDs).hottestExecutorLoad = x.hottestExecutorLoad ∧
        (x.visit shardLoad executorID shardIDs).hottestExecutorID = x.hottestExecutorID ∧
        (x.visit shardLoad executorID shardIDs).hottestShardID = x.hottestShardID ∧
        (x.visit shardLoad executorID shardIDs).hottestShardLoad = x.hottestShardLoad := by
  unfold Extremes.visit
  simp only [le_withTop, decide_eq_true_eq]
  split
  · split <;> simp_all
  · split <;> simp_all

theorem Hottest.visit (h : Measured shardLoad) {visited : List (String × List String)} {x : Extremes (WithTop ℚ)}
    (hx : x.hottestExecutorLoad = 0 ∧ visited = [] ∨ ∃ entry, Hottest shardLoad visited x entry)
    (entry : String × List String) :
    ∃ hottest, Hottest shardLoad (visited ++ [entry]) (x.visit shardLoad entry.1 entry.2) hottest := by
  have hvisit := Extremes.visit_hottestExecutor shardLoad x entry.1 entry.2
  rw [executorLoad_eq h] at hvisit
  have hnew : x.hottestExecutorLoad ≤ (total shardLoad entry.2 : WithTop ℚ) →
      (∀ other ∈ visited, total shardLoad other.2 ≤ total shardLoad entry.2) →
      Hottest shardLoad (visited ++ [entry]) (x.visit shardLoad entry.1 entry.2) entry := by
    intro hle hothers
    rw [if_pos hle] at hvisit
    obtain ⟨hload, hid, hshard⟩ := hvisit
    refine ⟨by simp, hid, hload, ?_, ?_⟩
    · exact List.forall_mem_append.mpr ⟨hothers, List.forall_mem_singleton.mpr le_rfl⟩
    · rcases hottestShard_spec h x.hottestShardID entry.2 with ⟨heq, hnil⟩ | ⟨shardID, heq, hhottest⟩
      · rw [heq, Prod.mk.injEq] at hshard
        exact .inl ⟨hshard.2, hnil⟩
      · rw [heq, Prod.mk.injEq] at hshard
        rw [← hshard.1] at hhottest
        exact .inr ⟨hshard.1 ▸ hshard.2, hhottest⟩
  rcases hx with ⟨hzero, rfl⟩ | ⟨hottest, hhottest⟩
  · refine ⟨entry, hnew ?_ (by simp)⟩
    rw [hzero]
    exact WithTop.coe_le_coe.mpr (total_nonneg h entry.2)
  · by_cases hle : x.hottestExecutorLoad ≤ (total shardLoad entry.2 : WithTop ℚ)
    · refine ⟨entry, hnew hle fun other hother => ?_⟩
      rw [hhottest.load, WithTop.coe_le_coe] at hle
      exact (hhottest.le other hother).trans hle
    · rw [if_neg hle] at hvisit
      obtain ⟨hload, hid, hshardID, hshardLoad⟩ := hvisit
      rw [hhottest.load, WithTop.coe_le_coe, not_le] at hle
      refine ⟨hottest, List.mem_append_left _ hhottest.mem, hid.trans hhottest.id, hload.trans hhottest.load, ?_, ?_⟩
      · exact List.forall_mem_append.mpr ⟨hhottest.le, List.forall_mem_singleton.mpr hle.le⟩
      · rw [hshardID, hshardLoad]
        exact hhottest.shard

/-- A scan over at least one executor finds the coldest and the hottest. -/
theorem exists_extremes (h : Measured shardLoad) (visited : List (String × List String)) :
    visited = [] ∨ (∃ entry, Coldest shardLoad visited (findExtremes shardLoad visited) entry) ∧
      ∃ entry, Hottest shardLoad visited (findExtremes shardLoad visited) entry := by
  induction visited using List.reverseRecOn with
  | nil => exact .inl rfl
  | append_singleton visited entry ih =>
    right
    have hnext : findExtremes shardLoad (visited ++ [entry]) =
        (findExtremes shardLoad visited).visit shardLoad entry.1 entry.2 := by
      rw [findExtremes, findExtremes, List.foldl_append]
      rfl
    rw [hnext]
    rcases ih with rfl | ⟨hcoldest, hhottest⟩
    · exact ⟨Coldest.visit h (.inl ⟨rfl, rfl⟩) entry, Hottest.visit h (.inl ⟨rfl, rfl⟩) entry⟩
    · exact ⟨Coldest.visit h (.inr hcoldest) entry, Hottest.visit h (.inr hhottest) entry⟩

end Scan

section Contract

/-- The loads of all executors. -/
def loads (shardLoad : Map String (WithTop ℚ)) (assignments : ListMap String String) : List ℚ :=
  assignments.toList.map fun entry => total shardLoad entry.2

/-- The move of a hottest shard from a hottest to a coldest executor, which
stays colder than the hottest was. -/
structure Contract (shardLoad : Map String (WithTop ℚ)) (assignments : ListMap String String) (move : Move) : Prop where
  ne : move.fromID ≠ move.toID
  source : move.fromID ∈ assignments
  destination : move.toID ∈ assignments
  hottest : ∀ executorID ∈ assignments, total shardLoad (ListMap.index assignments executorID) ≤
    total shardLoad (ListMap.index assignments move.fromID)
  coldest : ∀ executorID ∈ assignments, total shardLoad (ListMap.index assignments move.toID) ≤
    total shardLoad (ListMap.index assignments executorID)
  shard : IsHottest shardLoad (ListMap.index assignments move.fromID) move.shardID
  applies : ∃ after, process.applyMoves assignments [move] = .ok after ∧
    total shardLoad (ListMap.index after move.toID) < total shardLoad (ListMap.index assignments move.fromID) ∧
    balance.Improves (loads shardLoad assignments) (loads shardLoad after)

variable {shardLoad : Map String (WithTop ℚ)} {assignments : ListMap String String}

/-- A list with a positive load has a shard with one. -/
theorem weight_pos_of_isHottest (h : Measured shardLoad) {shardIDs : List String} {shardID : String}
    (hhottest : IsHottest shardLoad shardIDs shardID) (hpos : 0 < total shardLoad shardIDs) :
    0 < weight shardLoad shardID := by
  refine lt_of_le_of_ne (h.nonneg shardID) fun hzero => ?_
  have hall : ∀ load ∈ shardIDs.map (weight shardLoad), load = 0 := by
    intro load hload
    obtain ⟨other, hother, rfl⟩ := List.mem_map.mp hload
    exact le_antisymm (hzero ▸ hhottest.2 other hother) (h.nonneg other)
  rw [total, List.sum_eq_zero hall] at hpos
  exact lt_irrefl 0 hpos

/-- Applying a move that leaves its destination colder than its source was
evens out the loads. -/
theorem improves_applyMoves {move : Move} (hne : move.fromID ≠ move.toID) (hsource : move.fromID ∈ assignments)
    (hdestination : move.toID ∈ assignments) (hmem : move.shardID ∈ ListMap.index assignments move.fromID)
    (hpos : 0 < weight shardLoad move.shardID)
    (hgap : total shardLoad (ListMap.index assignments move.toID) + weight shardLoad move.shardID <
      total shardLoad (ListMap.index assignments move.fromID)) :
    ∃ after, process.applyMoves assignments [move] = .ok after ∧
      total shardLoad (ListMap.index after move.toID) < total shardLoad (ListMap.index assignments move.fromID) ∧
      balance.Improves (loads shardLoad assignments) (loads shardLoad after) := by
  obtain ⟨idx, hidx⟩ := Option.isSome_iff_exists.mp (List.isSome_idxOf?.mpr hmem)
  obtain ⟨hlt, hget, -⟩ := List.idxOf?_eq_some_iff.mp hidx
  have hperm := perm_swapRemove (List.getElem?_eq_some_iff.mpr ⟨hlt, hget⟩)
  have hlists : ListMap.index (assignments.insert move.fromID
      (swapRemove (ListMap.index assignments move.fromID) idx)) move.toID = ListMap.index assignments move.toID := by
    rw [ListMap.index_insert, if_neg hne.symm]
  have hremoved : total shardLoad (swapRemove (ListMap.index assignments move.fromID) idx) =
      total shardLoad (ListMap.index assignments move.fromID) - weight shardLoad move.shardID := by
    rw [total, total, (hperm.map _).sum_eq, List.map_cons, List.sum_cons, add_sub_cancel_left]
  have hadded : total shardLoad (ListMap.index assignments move.toID ++ [move.shardID]) =
      total shardLoad (ListMap.index assignments move.toID) + weight shardLoad move.shardID := by
    rw [total, total, List.map_append, List.sum_append, List.map_singleton, List.sum_singleton]
  have happly : process.applyMoves assignments [move] =
      .ok ((assignments.insert move.fromID (swapRemove (ListMap.index assignments move.fromID) idx)).insert
        move.toID (ListMap.index assignments move.toID ++ [move.shardID])) := by
    rw [process.applyMoves, List.foldlM_cons, process.applyMove, hidx]
    dsimp only
    rw [ListMap.push, hlists]
    rfl
  refine ⟨_, happly, ?_, ?_⟩
  · rw [ListMap.index_insert, if_pos rfl, hadded]
    exact hgap
  · obtain ⟨shards, hshards⟩ := Map.mem_iff_exists_lookup.mp hsource
    obtain ⟨shards', hshards'⟩ := Map.mem_iff_exists_lookup.mp hdestination
    obtain ⟨rest, hbefore, hafter⟩ := Map.insert_insert_toList_perm hne hshards hshards'
    rw [← ListMap.index_of_lookup hshards, ← ListMap.index_of_lookup hshards'] at hbefore
    refine balance.improves_of_transfer hpos hgap (hbefore.map _) ?_
    rw [loads, hafter, List.map_cons, List.map_cons, hadded, hremoved]
    exact List.Perm.swap _ _ _

/-- What the scan found is worth a move if the coldest executor does not become
the hottest. -/
theorem contract_of_extremes (h : Measured shardLoad) {order : RangeOrder} {loop : String} {x : Extremes (WithTop ℚ)}
    {cold hot : String × List String} (hcold : Coldest shardLoad (order.range loop assignments) x cold)
    (hhot : Hottest shardLoad (order.range loop assignments) x hot)
    (hcolder : x.coldestExecutorLoad + x.hottestShardLoad < x.hottestExecutorLoad) :
    Contract shardLoad assignments ⟨x.hottestShardID, x.hottestExecutorID, x.coldestExecutorID⟩ := by
  have hcoldLookup := RangeOrder.mem_range_iff.mp hcold.mem
  have hhotLookup := RangeOrder.mem_range_iff.mp hhot.mem
  have hentry : ∀ {executorID}, executorID ∈ assignments →
      (executorID, ListMap.index assignments executorID) ∈ order.range loop assignments := by
    intro executorID hmem
    obtain ⟨shards, hshards⟩ := Map.mem_iff_exists_lookup.mp hmem
    rw [ListMap.index_of_lookup hshards]
    exact RangeOrder.mem_range_iff.mpr hshards
  rw [hcold.load, hhot.load] at hcolder
  -- An executor without shards is not hotter than the coldest one.
  have hshard : x.hottestShardLoad = weight shardLoad x.hottestShardID ∧
      IsHottest shardLoad hot.2 x.hottestShardID := by
    refine hhot.shard.resolve_left fun ⟨hzero, hnil⟩ => ?_
    rw [hzero, add_zero, WithTop.coe_lt_coe, hnil] at hcolder
    exact absurd (total_nonneg h cold.2) (not_le.mpr hcolder)
  obtain ⟨hload, hhottest⟩ := hshard
  rw [hload, ← WithTop.coe_add, WithTop.coe_lt_coe] at hcolder
  have hcoldNonneg := total_nonneg h cold.2
  have hweight := h.nonneg x.hottestShardID
  have hpos := weight_pos_of_isHottest h hhottest (by linarith)
  have hne : x.hottestExecutorID ≠ x.coldestExecutorID := by
    intro heq
    rw [hhot.id, hcold.id] at heq
    rw [heq, hcoldLookup, Option.some_inj] at hhotLookup
    rw [hhotLookup] at hcolder
    linarith
  have hcoldMem := Map.mem_iff_exists_lookup.mpr ⟨_, hcoldLookup⟩
  have hhotMem := Map.mem_iff_exists_lookup.mpr ⟨_, hhotLookup⟩
  rw [← ListMap.index_of_lookup hhotLookup, ← hhot.id] at hhottest hcolder
  rw [← ListMap.index_of_lookup hcoldLookup, ← hcold.id] at hcolder
  rw [← hcold.id] at hcoldMem
  rw [← hhot.id] at hhotMem
  refine ⟨hne, hhotMem, hcoldMem, fun executorID hmem => ?_, fun executorID hmem => ?_, hhottest,
    improves_applyMoves hne hhotMem hcoldMem hhottest.1 hpos hcolder⟩
  · rw [hhot.id, ListMap.index_of_lookup hhotLookup]
    exact hhot.le (executorID, ListMap.index assignments executorID) (hentry hmem)
  · rw [hcold.id, ListMap.index_of_lookup hcoldLookup]
    exact hcold.le (executorID, ListMap.index assignments executorID) (hentry hmem)

/-- With exact loads the planner returns no move or one that keeps the contract. -/
theorem planRebalance_cases {order : RangeOrder} {maxDeviation : WithTop ℚ} {state : NamespaceState (WithTop ℚ)}
    (hmeasured : Measured (calcShardLoad order state)) :
    planRebalance order maxDeviation state assignments = [] ∨
      ∃ move, planRebalance order maxDeviation state assignments = [move] ∧
        Contract (calcShardLoad order state) assignments move := by
  unfold planRebalance
  dsimp only
  split
  · exact .inl rfl
  rename_i hcount
  split
  · exact .inl rfl
  split
  · exact .inl rfl
  rename_i hhotter
  right
  refine ⟨_, rfl, ?_⟩
  rcases exists_extremes hmeasured (order.range "PlanRebalance" assignments) with
    hnil | ⟨⟨cold, hcold⟩, ⟨hot, hhot⟩⟩
  · have hkeys := (order.rangeKeys_perm "PlanRebalance" assignments).length_eq
    rw [RangeOrder.rangeKeys, hnil, List.map_nil, List.length_nil] at hkeys
    omega
  · rw [le_withTop, add_withTop, decide_eq_true_iff, not_le] at hhotter
    exact contract_of_extremes hmeasured hcold hhot hhotter

/-- With exact loads that are not negative the naive planner returns no move
or one that evens out the loads. -/
theorem planRebalance_evens (order : RangeOrder) (maxDeviation : WithTop ℚ) (state : NamespaceState (WithTop ℚ))
    (assignments : ListMap String String) (hreports : NonnegativeReports state) :
    planRebalance order maxDeviation state assignments = [] ∨
      ∃ move, planRebalance order maxDeviation state assignments = [move] ∧
        Contract (calcShardLoad order state) assignments move :=
  planRebalance_cases (measured_calcShardLoad order hreports)

/-- Two executors report loads; the third shard of the first is not reported. -/
def reported : NamespaceState (WithTop ℚ) where
  executorMetadata := ∅
  shardAssignments := ∅
  drainedShards := ∅
  revision := 1
  assignmentRevision := 0
  executors := Map.ofList [
    ("a", ⟨1, .active, Map.ofList [("1", some ⟨.ready, (3 : ℚ)⟩), ("2", some ⟨.ready, (2 : ℚ)⟩)], ∅, none⟩),
    ("b", ⟨1, .active, Map.ofList [("4", none)], ∅, none⟩)]
  shardStats := ∅
  drainedHosts := ∅

def hotAndIdle : ListMap String String := Map.ofList [("a", ["1", "2", "3"]), ("b", [])]

theorem reported_evens : NonnegativeReports reported ∧
    planRebalance .stored ((2 : ℚ) : WithTop ℚ) reported hotAndIdle = [⟨"1", "a", "b"⟩] ∧
    Contract (calcShardLoad .stored reported) hotAndIdle ⟨"1", "a", "b"⟩ := by
  have hreports : NonnegativeReports reported := by decide +kernel
  have hplan : planRebalance .stored ((2 : ℚ) : WithTop ℚ) reported hotAndIdle = [⟨"1", "a", "b"⟩] := by decide +kernel
  refine ⟨hreports, hplan, ?_⟩
  rcases planRebalance_evens .stored ((2 : ℚ) : WithTop ℚ) reported hotAndIdle hreports with
    hnil | ⟨move, hmove, hcontract⟩
  · rw [hplan] at hnil
    cases hnil
  · rw [hplan] at hmove
    cases hmove
    exact hcontract

end Contract

end naive
