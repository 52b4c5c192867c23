import ShardManager.Abstract.Balance
import ShardManager.Golang.Rational
import ShardManager.Process.Planning

open golang golang.Float64 store plan

namespace greedy

section Model

variable {F : Type} [Float64 F]

/-- The planning loop with the working state after every move. -/
def planTrace (order : RangeOrder) (cfg : Config F) (state : NamespaceState F) (meanLoad : F) (now : Time) :
    Nat → Working F → Except Failure (List (Move × Working F))
  | 0, _ => .ok []
  | budget + 1, w => do
    match ← planAndApplyNextMove (order.within (toString budget)) cfg state meanLoad now w with
    | none => .ok []
    | some (candidate, w) =>
      let trace ← planTrace order cfg state meanLoad now budget w
      .ok ((⟨candidate.shardID, candidate.fromID, candidate.toID⟩, w) :: trace)

/-- The working state that a rebalance starts from. -/
def startWorking (order : RangeOrder) (state : NamespaceState F) (assignments : ListMap String String) : Working F :=
  match computeExecutorLoads order assignments state with
  | some (loads, _) => ⟨assignments, loads, ∅⟩
  | none => ⟨assignments, ∅, ∅⟩

/-- `PlanRebalance` with the working state after every move. -/
def rebalanceTrace (order : RangeOrder) (cfg : Config F) (state : NamespaceState F)
    (currentAssignments : ListMap String String) (now : Time) : Except Failure (List (Move × Working F)) :=
  match computeExecutorLoads order currentAssignments state with
  | none => .ok []
  | some (loads, meanLoad) =>
    let totalShards := (ListMap.elements currentAssignments).length
    let moveBudget := computeMoveBudget totalShards cfg.moveBudgetProportion
    if moveBudget ≤ 0 then .ok []
    else do
      makeslice moveSize moveBudget
      planTrace order cfg state meanLoad now moveBudget.toNat ⟨currentAssignments, loads, ∅⟩

end Model

section Loads

variable {state : NamespaceState ℚ} {average : ℚ}

/-- The load that an executor has according to its list of shards. -/
def listedLoad (state : NamespaceState ℚ) (average : ℚ) (assignments : ListMap String String) (executorID : String) : ℚ :=
  ((ListMap.index assignments executorID).map (effectiveShardLoad state.shardStats average)).sum

/-- The tracked loads are those of the working lists, in which no shard occurs
twice. -/
structure Tracked (state : NamespaceState ℚ) (average : ℚ) (executors : String → Prop) (w : Working ℚ) : Prop where
  covers : w.Covers executors
  loads : ∀ executorID, loadOf w.loads executorID = listedLoad state average w.assignments executorID
  nodup : (ListMap.elements w.assignments).Nodup

/-- What makes a shard movable: it is measured, outside its cooldown and not
too light. -/
theorem movableLoad_eq_some {cfg : Config ℚ} {movedShards : KeySet String} {now : Time} {shardID : String}
    {load : ℚ} (h : movableLoad cfg state.shardStats movedShards now shardID = some load) :
    shardID ∉ movedShards ∧ ∃ stats, state.shardStats.lookup shardID = some stats ∧ stats.smoothedLoad = load ∧
      hasSmoothedLoadUpdate stats = true ∧ 1 / 100 ≤ load ∧
      ¬(0 < cfg.perShardCooldown ∧ !stats.lastMoveTime.isZero ∧ now.sub stats.lastMoveTime < cfg.perShardCooldown) := by
  unfold movableLoad at h
  split at h
  · cases h
  rename_i hmoved
  split at h
  · cases h
  rename_i stats hstats
  split_ifs at h with hmeasured hcooldown hlight
  cases h
  refine ⟨hmoved, stats, hstats, rfl, by simpa using hmeasured, ?_, hcooldown⟩
  simpa [minShardSmoothedLoadForMove] using hlight

/-- A movable shard is measured, so its load is the effective one. -/
theorem effectiveShardLoad_of_movable {cfg : Config ℚ} {movedShards : KeySet String} {now : Time} {shardID : String}
    {load : ℚ} (h : movableLoad cfg state.shardStats movedShards now shardID = some load) :
    effectiveShardLoad state.shardStats average shardID = load := by
  obtain ⟨-, stats, hstats, rfl, hmeasured, -⟩ := movableLoad_eq_some h
  rw [effectiveShardLoad, measuredShardLoad, hstats]
  dsimp only
  rw [if_pos hmeasured, Option.getD_some]

theorem loadOf_insert (loads : Map String ℚ) (executorID executorID' : String) (load : ℚ) :
    loadOf (loads.insert executorID load) executorID' =
      if executorID' = executorID then load else loadOf loads executorID' := by
  unfold loadOf
  rw [Map.lookup_insert_eq]
  split <;> rfl

theorem lookup_of_mem_loads {loads : Map String ℚ} {executorID : String} (h : executorID ∈ loads) :
    loads.lookup executorID = some (loadOf loads executorID) := by
  obtain ⟨load, hload⟩ := Map.mem_iff_exists_lookup.mp h
  rw [loadOf, hload, Option.getD_some]

end Loads

section Step

variable {state : NamespaceState ℚ} {average : ℚ} {executors : String → Prop} {cfg : Config ℚ} {now : Time}
  {w : Working ℚ} {candidate : MoveCandidate ℚ}

/-- The loads of all executors. -/
def Working.loadList (w : Working ℚ) : List ℚ := w.loads.toList.map Prod.snd

/-- The lists after a move, executor by executor. -/
theorem index_move (hne : candidate.fromID ≠ candidate.toID) (executorID : String) :
    ListMap.index (w.move candidate).assignments executorID =
      if executorID = candidate.toID then ListMap.index w.assignments candidate.toID ++ [candidate.shardID]
      else if executorID = candidate.fromID then
        swapRemove (ListMap.index w.assignments candidate.fromID) candidate.assignmentIndex
      else ListMap.index w.assignments executorID := by
  rw [Working.move, ListMap.index_push, ListMap.index_insert, ListMap.index_insert, if_neg hne.symm]

theorem loadOf_move (hne : candidate.fromID ≠ candidate.toID) (executorID : String) :
    loadOf (w.move candidate).loads executorID =
      if executorID = candidate.toID then loadOf w.loads candidate.toID + candidate.smoothedLoad
      else if executorID = candidate.fromID then loadOf w.loads candidate.fromID - candidate.smoothedLoad
      else loadOf w.loads executorID := by
  rw [Working.move, updateExecutorLoadsAfterMove, loadOf_insert, loadOf_insert, loadOf_insert, if_neg hne.symm]
  rfl

variable (h : Tracked state average executors w) (hselected : Selected cfg state now w candidate)

include h hselected

/-- A selected move keeps the tracked loads right. -/
theorem Tracked.move : Tracked state average executors (w.move candidate) where
  covers := by
    obtain ⟨hfrom, hto⟩ := hselected.covers h.covers
    exact h.covers.move hfrom hto
  loads := by
    intro executorID
    have hload : effectiveShardLoad state.shardStats average candidate.shardID = candidate.smoothedLoad :=
      effectiveShardLoad_of_movable hselected.movable
    have hremoved : listedLoad state average w.assignments candidate.fromID = candidate.smoothedLoad +
        ((swapRemove (ListMap.index w.assignments candidate.fromID) candidate.assignmentIndex).map
          (effectiveShardLoad state.shardStats average)).sum := by
      rw [listedLoad, ((perm_swapRemove hselected.index).map _).sum_eq, List.map_cons, List.sum_cons, hload]
    rw [loadOf_move hselected.ne, listedLoad, index_move hselected.ne]
    split
    · rw [List.map_append, List.sum_append, List.map_singleton, List.sum_singleton, hload, h.loads]
      rfl
    · split
      · rw [h.loads, hremoved]
        ring
      · exact h.loads executorID
  nodup := by
    have hremoved := ListMap.elements_perm_of_index_perm (perm_swapRemove hselected.index)
    refine (List.Perm.nodup_iff ?_).mpr h.nodup
    exact (ListMap.elements_push_perm _ _ _).trans hremoved.symm

/-- A selected move evens out the loads. -/
theorem improves_move : balance.Improves w.loadList (w.move candidate).loadList := by
  obtain ⟨hfrom, hto⟩ := hselected.covers h.covers
  have hsource := lookup_of_mem_loads ((h.covers.loads _).mpr hfrom)
  have hdestination := lookup_of_mem_loads ((h.covers.loads _).mpr hto)
  obtain ⟨rest, hbefore, hafter⟩ := Map.insert_insert_toList_perm hselected.ne hsource hdestination
  obtain ⟨-, -, -, -, -, hlight, -⟩ := movableLoad_eq_some hselected.movable
  have hpos : 0 < candidate.smoothedLoad := lt_of_lt_of_le (by norm_num) hlight
  have hgain := of_decide_eq_false hselected.beneficial
  refine balance.improves_of_transfer hpos (balance.gap_of_gain hpos (not_le.mp hgain)) (hbefore.map Prod.snd) ?_
  have hloads : (w.move candidate).loads = (w.loads.insert candidate.fromID
      (loadOf w.loads candidate.fromID - candidate.smoothedLoad)).insert candidate.toID
      (loadOf w.loads candidate.toID + candidate.smoothedLoad) := by
    rw [Working.move, updateExecutorLoadsAfterMove, loadOf_insert, if_neg hselected.ne.symm]
    rfl
  rw [Working.loadList, hloads, hafter]
  exact List.Perm.swap _ _ _

/-- `applyMoves` does to the assignments what the move does to the working
lists: the only occurrence of the shard is the remembered one. -/
theorem applyMove_move :
    process.applyMove w.assignments ⟨candidate.shardID, candidate.fromID, candidate.toID⟩ =
      .ok (w.move candidate).assignments := by
  have hidx : (ListMap.index w.assignments candidate.fromID).idxOf? candidate.shardID =
      some candidate.assignmentIndex := by
    obtain ⟨hlt, hget⟩ := List.getElem?_eq_some_iff.mp hselected.index
    refine List.idxOf?_eq_some_iff.mpr ⟨hlt, hget, fun j hj heq => ?_⟩
    have hnodup := ListMap.index_nodup h.nodup candidate.fromID
    have hsame := hnodup.getElem_inj_iff.mp (heq.trans hget.symm)
    omega
  rw [process.applyMove, hidx]
  rfl

end Step

section Contract

/-- What holds of every planned move: it goes between two different executors
of the assignments, to one that is ACTIVE and not on a drained host, and its
shard is measured, not too light and outside its cooldown. -/
structure Permitted (cfg : Config ℚ) (state : NamespaceState ℚ) (executors : String → Prop) (now : Time)
    (move : Move) : Prop where
  ne : move.fromID ≠ move.toID
  source : executors move.fromID
  destination : executors move.toID
  assignable : ∃ heartbeat, state.executors.lookup move.toID = some heartbeat ∧ heartbeat.status = .active ∧
    (heartbeat.hostname = "" ∨ state.isHostDrained heartbeat.hostname = false)
  shard : ∃ stats, state.shardStats.lookup move.shardID = some stats ∧ hasSmoothedLoadUpdate stats = true ∧
    1 / 100 ≤ stats.smoothedLoad ∧
    ¬(0 < cfg.perShardCooldown ∧ !stats.lastMoveTime.isZero ∧ now.sub stats.lastMoveTime < cfg.perShardCooldown)

/-- What the moves planned from a working state and the states after them
guarantee. -/
structure Contract (cfg : Config ℚ) (state : NamespaceState ℚ) (average : ℚ) (executors : String → Prop) (now : Time)
    (w : Working ℚ) (trace : List (Move × Working ℚ)) : Prop where
  applies : ∃ final, process.applyMoves w.assignments (trace.map Prod.fst) = .ok final
  once : (trace.map fun step => step.1.shardID).Nodup
  permitted : ∀ step ∈ trace, Permitted cfg state executors now step.1
  tracked : ∀ w' ∈ w :: trace.map Prod.snd, ∀ executorID, executors executorID →
    w'.loads.lookup executorID = some (listedLoad state average w'.assignments executorID)
  improves : (w :: trace.map Prod.snd).IsChain fun w w' => balance.Improves w.loadList w'.loadList

variable {state : NamespaceState ℚ} {average : ℚ} {executors : String → Prop} {cfg : Config ℚ} {now : Time}
  {w : Working ℚ} {candidate : MoveCandidate ℚ}

theorem Tracked.lookup (h : Tracked state average executors w) (executorID : String) (hexecutor : executors executorID) :
    w.loads.lookup executorID = some (listedLoad state average w.assignments executorID) := by
  rw [lookup_of_mem_loads ((h.covers.loads _).mpr hexecutor), h.loads]

theorem permitted_of_selected (h : Tracked state average executors w) (hselected : Selected cfg state now w candidate) :
    Permitted cfg state executors now ⟨candidate.shardID, candidate.fromID, candidate.toID⟩ := by
  obtain ⟨hfrom, hto⟩ := hselected.covers h.covers
  obtain ⟨-, stats, hstats, hload, hmeasured, hlight, hcooldown⟩ := movableLoad_eq_some hselected.movable
  have hassignable : state.Assignable ∅ candidate.toID := by
    have h := hselected.assignable
    unfold isAssignable at h
    split at h
    · rename_i executor hexecutor
      exact ⟨executor, hexecutor, h⟩
    · cases h
  obtain ⟨heartbeat, hlookup, hactive, hhost, -⟩ := NamespaceState.assignable_iff.mp hassignable
  exact ⟨hselected.ne, hfrom, hto, ⟨heartbeat, hlookup, hactive, hhost⟩, stats, hstats, hmeasured, hload ▸ hlight,
    hcooldown⟩

theorem contract_nil (h : Tracked state average executors w) : Contract cfg state average executors now w [] where
  applies := ⟨w.assignments, rfl⟩
  once := List.nodup_nil
  permitted := List.forall_mem_nil _
  tracked := List.forall_mem_singleton.mpr h.lookup
  improves := .singleton _

/-- A selected move in front of what is planned after it. -/
theorem Contract.cons {trace : List (Move × Working ℚ)} (h : Tracked state average executors w)
    (hselected : Selected cfg state now w candidate)
    (hrest : Contract cfg state average executors now (w.move candidate) trace)
    (hmoved : ∀ step ∈ trace, step.1.shardID ∉ (w.move candidate).movedShards) :
    Contract cfg state average executors now w
      ((⟨candidate.shardID, candidate.fromID, candidate.toID⟩, w.move candidate) :: trace) where
  applies := by
    obtain ⟨final, hfinal⟩ := hrest.applies
    refine ⟨final, ?_⟩
    rw [process.applyMoves, List.map_cons, List.foldlM_cons, applyMove_move h hselected]
    exact hfinal
  once := by
    refine List.nodup_cons.mpr ⟨fun hmem => ?_, hrest.once⟩
    obtain ⟨step, hstep, hshard⟩ := List.mem_map.mp hmem
    refine hmoved step hstep ?_
    rw [hshard]
    exact (AList.mem_insert _).mpr (.inl rfl)
  permitted := List.forall_mem_cons.mpr ⟨permitted_of_selected h hselected, hrest.permitted⟩
  tracked := List.forall_mem_cons.mpr ⟨h.lookup, hrest.tracked⟩
  improves := List.isChain_cons_cons.mpr ⟨improves_move h hselected, hrest.improves⟩

/-- The planning loop never fails, and whatever it plans from a state with the
right loads keeps the contract. -/
theorem planTrace_contract (order : RangeOrder) (meanLoad : ℚ) (budget : Nat) (h : Tracked state average executors w) :
    ∃ trace, planTrace order cfg state meanLoad now budget w = .ok trace ∧
      planMoves order cfg state meanLoad now budget w = .ok (trace.map Prod.fst) ∧ trace.length ≤ budget ∧
      (∀ step ∈ trace, step.1.shardID ∉ w.movedShards) ∧ Contract cfg state average executors now w trace := by
  induction budget generalizing w with
  | zero => exact ⟨[], rfl, rfl, le_rfl, List.forall_mem_nil _, contract_nil h⟩
  | succ budget ih =>
    rcases planAndApplyNextMove_cases (order.within (toString budget)) cfg state meanLoad now w with
      hnone | ⟨candidate, hselected, hsome⟩
    · refine ⟨[], ?_, ?_, Nat.zero_le _, List.forall_mem_nil _, contract_nil h⟩
      · rw [planTrace, hnone]
        rfl
      · rw [planMoves, hnone]
        rfl
    · obtain ⟨trace, htrace, hmoves, hlength, hmoved, hcontract⟩ := ih (h.move hselected)
      refine ⟨(⟨candidate.shardID, candidate.fromID, candidate.toID⟩, w.move candidate) :: trace, ?_, ?_,
        Nat.succ_le_succ hlength, List.forall_mem_cons.mpr ⟨(movableLoad_eq_some hselected.movable).1, ?_⟩,
        hcontract.cons h hselected hmoved⟩
      · rw [planTrace, hsome]
        exact bind_eq_ok_iff.mpr ⟨_, rfl, bind_eq_ok_iff.mpr ⟨trace, htrace, rfl⟩⟩
      · rw [planMoves, hsome]
        exact bind_eq_ok_iff.mpr ⟨_, rfl, bind_eq_ok_iff.mpr ⟨_, hmoves, rfl⟩⟩
      · intro step hstep hmem
        exact hmoved step hstep ((AList.mem_insert _).mpr (.inr hmem))

/-- The loads a rebalance starts from are those of the assignments. -/
theorem tracked_start {order : RangeOrder} {assignments : ListMap String String} {loads : Map String ℚ} {meanLoad : ℚ}
    (hnodup : (ListMap.elements assignments).Nodup)
    (h : computeExecutorLoads order assignments state = some (loads, meanLoad)) :
    Tracked state (averageMeasuredShardLoad order assignments state.shardStats) (· ∈ assignments)
      ⟨assignments, loads, ∅⟩ where
  covers := ⟨fun _ => Iff.rfl, fun _ => mem_computeExecutorLoads h⟩
  loads := by
    intro executorID
    by_cases hmem : executorID ∈ assignments
    · obtain ⟨shards, hshards⟩ := Map.mem_iff_exists_lookup.mp hmem
      unfold computeExecutorLoads at h
      split at h
      · cases h
      simp only [Option.some.injEq, Prod.mk.injEq] at h
      have hlookup : loads.lookup executorID = some (shards.foldl (fun sum shardID => add sum
          (effectiveShardLoad state.shardStats (averageMeasuredShardLoad order assignments state.shardStats)
            shardID)) zero) := by
        rw [← h.1, Map.lookup_ofList_iff]
        · exact List.mem_map.mpr ⟨(executorID, shards), RangeOrder.mem_range_iff.mpr hshards, rfl⟩
        · rw [List.map_map]
          exact RangeOrder.nodup_rangeKeys order "computeExecutorLoads" assignments
      rw [loadOf, hlookup, Option.getD_some, foldl_add_rat, listedLoad, ListMap.index_of_lookup hshards]
    · have hnone : loads.lookup executorID = none :=
        AList.lookup_eq_none.mpr fun hloads => hmem ((mem_computeExecutorLoads h).mp hloads)
      rw [loadOf, hnone, listedLoad, ListMap.index_of_not_mem hmem]
      rfl
  nodup := hnodup

theorem not_mem_of_computeExecutorLoads {order : RangeOrder} {assignments : ListMap String String}
    (h : computeExecutorLoads order assignments state = none) (executorID : String) : executorID ∉ assignments := by
  intro hmem
  unfold computeExecutorLoads at h
  split at h
  · rename_i hkeys
    rw [List.length_eq_zero_iff] at hkeys
    rw [AList.mem_keys, hkeys] at hmem
    cases hmem
  · cases h

/-- Without executors there is nothing to track. -/
theorem tracked_empty {order : RangeOrder} {assignments : ListMap String String}
    (hnodup : (ListMap.elements assignments).Nodup) (h : computeExecutorLoads order assignments state = none) :
    Tracked state average (· ∈ assignments) ⟨assignments, ∅, ∅⟩ := by
  have hempty := not_mem_of_computeExecutorLoads h
  refine ⟨⟨fun _ => Iff.rfl, fun executorID => ?_⟩, fun executorID => ?_, hnodup⟩
  · simp [hempty executorID]
  · rw [listedLoad, ListMap.index_of_not_mem (hempty executorID)]
    rfl

/-- The budget is the share of the shards as an `int`, and a negative one is none. -/
theorem computeMoveBudget_eq (totalShards : Nat) (proportion : ℚ) :
    computeMoveBudget totalShards proportion = truncInt (max 0 ⌈proportion * totalShards⌉) := by
  unfold computeMoveBudget
  split
  · rename_i hnone
    rw [max_eq_left (Int.ceil_le.mpr ?_)]
    · rfl
    rw [Int.cast_zero]
    rcases hnone with rfl | hproportion
    · rw [Nat.cast_zero, mul_zero]
    · exact mul_nonpos_of_nonpos_of_nonneg (by simpa using hproportion) (Nat.cast_nonneg totalShards)
  · rename_i hsome
    obtain ⟨hshards, hproportion⟩ := not_or.mp hsome
    have hpos : 0 < ⌈proportion * totalShards⌉ :=
      Int.ceil_pos.mpr (mul_pos (by simpa using hproportion) (Nat.cast_pos.mpr (Nat.pos_of_ne_zero hshards)))
    rw [ceilInt_rat, mul_rat, ofInt_rat, Int.cast_natCast, max_eq_right hpos.le]

/-- A budget that cannot be allocated panics, unless it does not even fit an `int`. -/
theorem planRebalance_of_large (order : RangeOrder) (cfg : Config ℚ) (state : NamespaceState ℚ)
    (assignments : ListMap String String) (now : Time)
    (h : maxAlloc < moveSize * ⌈cfg.moveBudgetProportion * (ListMap.elements assignments).length⌉) :
    computeMoveBudget (ListMap.elements assignments).length cfg.moveBudgetProportion < 0 ∨
      planRebalance order cfg state assignments now = .error (.panic "runtime error: makeslice: cap out of range") := by
  have hpos : 0 < ⌈cfg.moveBudgetProportion * (ListMap.elements assignments).length⌉ := by
    rw [moveSize, maxAlloc] at h
    omega
  have hbudget := computeMoveBudget_eq (ListMap.elements assignments).length cfg.moveBudgetProportion
  rw [max_eq_right hpos.le, truncInt] at hbudget
  split at hbudget
  · right
    unfold planRebalance
    cases hloads : computeExecutorLoads order assignments state with
    | none =>
      have hnil : ListMap.elements assignments = [] := by
        refine List.eq_nil_iff_forall_not_mem.mpr fun shardID hmem => ?_
        obtain ⟨executorID, hindex⟩ := ListMap.mem_elements.mp hmem
        rw [ListMap.index_of_not_mem (not_mem_of_computeExecutorLoads hloads executorID)] at hindex
        cases hindex
      simp [hnil] at hpos
    | some computed =>
      obtain ⟨loads, meanLoad⟩ := computed
      have hmake : makeslice moveSize _ = .error (.panic _) := if_pos (.inr h)
      refine (if_neg (by omega)).trans ?_
      rw [hbudget, hmake]
      rfl
  · left
    rw [hbudget]
    decide

/-- For all assignments in which no shard occurs twice, the greedy planner
returns moves without error that keep the contract and the budget, if and only
if the budget of moves can be allocated. -/
theorem planRebalance_contract_iff (order : RangeOrder) (cfg : Config ℚ) (state : NamespaceState ℚ)
    (assignments : ListMap String String) (now : Time) (hnodup : (ListMap.elements assignments).Nodup) :
    (∃ trace, rebalanceTrace order cfg state assignments now = .ok trace ∧
      planRebalance order cfg state assignments now = .ok (trace.map Prod.fst) ∧
      (trace.length : Int) ≤ computeMoveBudget (ListMap.elements assignments).length cfg.moveBudgetProportion ∧
      Contract cfg state (averageMeasuredShardLoad order assignments state.shardStats) (· ∈ assignments) now
        (startWorking order state assignments) trace) ↔
      moveSize * ⌈cfg.moveBudgetProportion * (ListMap.elements assignments).length⌉ ≤ maxAlloc := by
  constructor
  · rintro ⟨trace, -, hplan, hlength, -⟩
    by_contra hlarge
    rcases planRebalance_of_large order cfg state assignments now (not_le.mp hlarge) with hnegative | hpanic
    · omega
    · cases hplan.symm.trans hpanic
  intro hbudget
  have heq : computeMoveBudget (ListMap.elements assignments).length cfg.moveBudgetProportion =
      max 0 ⌈cfg.moveBudgetProportion * (ListMap.elements assignments).length⌉ := by
    rw [computeMoveBudget_eq, truncInt, if_pos]
    rw [moveSize, maxAlloc] at hbudget
    omega
  have hnonneg : 0 ≤ computeMoveBudget (ListMap.elements assignments).length cfg.moveBudgetProportion :=
    heq ▸ le_max_left 0 _
  unfold rebalanceTrace planRebalance startWorking
  cases hloads : computeExecutorLoads order assignments state with
  | none => exact ⟨[], rfl, rfl, hnonneg, contract_nil (tracked_empty hnodup hloads)⟩
  | some computed =>
    obtain ⟨loads, meanLoad⟩ := computed
    have htracked := tracked_start hnodup hloads
    by_cases hzero : computeMoveBudget (ListMap.elements assignments).length cfg.moveBudgetProportion ≤ 0
    · exact ⟨[], if_pos hzero, if_pos hzero, hnonneg, contract_nil htracked⟩
    · have hmake : makeslice moveSize
          (computeMoveBudget (ListMap.elements assignments).length cfg.moveBudgetProportion) = .ok () := by
        rw [heq] at hzero ⊢
        rw [max_eq_right (by omega)]
        exact if_neg (not_or.mpr ⟨by omega, not_lt.mpr hbudget⟩)
      obtain ⟨trace, htrace, hmoves, hlength, -, hcontract⟩ := planTrace_contract order meanLoad
        (computeMoveBudget (ListMap.elements assignments).length cfg.moveBudgetProportion).toNat htracked
      refine ⟨trace, ?_, ?_, ?_, hcontract⟩
      · exact (if_neg hzero).trans (bind_eq_ok_iff.mpr ⟨(), hmake, htrace⟩)
      · exact (if_neg hzero).trans (bind_eq_ok_iff.mpr ⟨(), hmake, hmoves⟩)
      · omega

/-- Executor `a` has all the load. -/
def unbalanced : NamespaceState ℚ where
  executorMetadata := ∅
  shardAssignments := ∅
  drainedShards := ∅
  revision := 1
  assignmentRevision := 0
  executors := Map.ofList [("a", ⟨1, .active, ∅, ∅, none⟩), ("b", ⟨1, .active, ∅, ∅, none⟩)]
  shardStats := Map.ofList [("1", ⟨3, 1, 0⟩), ("2", ⟨2, 1, 0⟩)]
  drainedHosts := ∅

def allOnOne : ListMap String String := Map.ofList [("a", ["1", "2", "3"]), ("b", [])]

def tightBands : Config ℚ := ⟨0, 1, 23 / 20, 19 / 20, 3 / 2⟩

theorem allOnOne_contract : (ListMap.elements allOnOne).Nodup ∧
    moveSize * ⌈tightBands.moveBudgetProportion * (ListMap.elements allOnOne).length⌉ ≤ maxAlloc ∧
    planRebalance .stored tightBands unbalanced allOnOne 10 = .ok [⟨"1", "a", "b"⟩] ∧
    ∃ trace, planRebalance .stored tightBands unbalanced allOnOne 10 = .ok (trace.map Prod.fst) ∧
      Contract tightBands unbalanced (averageMeasuredShardLoad .stored allOnOne unbalanced.shardStats) (· ∈ allOnOne) 10
        (startWorking .stored unbalanced allOnOne) trace := by
  have hnodup : (ListMap.elements allOnOne).Nodup := by decide +kernel
  have hbudget : moveSize * ⌈tightBands.moveBudgetProportion * (ListMap.elements allOnOne).length⌉ ≤ maxAlloc := by
    decide +kernel
  have hmoves : planRebalance .stored tightBands unbalanced allOnOne 10 = .ok [⟨"1", "a", "b"⟩] := by decide +kernel
  obtain ⟨trace, -, hplan, -, hcontract⟩ :=
    (planRebalance_contract_iff .stored tightBands unbalanced allOnOne 10 hnodup).mpr hbudget
  exact ⟨hnodup, hbudget, hmoves, trace, hplan, hcontract⟩

/-- A move budget proportion that no limit rejects makes the allocation of the
moves panic, before any of them is planned. -/
theorem hugeBudget_panics : (ListMap.elements allOnOne).Nodup ∧
    planRebalance .stored ⟨0, 10 ^ 17, 23 / 20, 19 / 20, 3 / 2⟩ unbalanced allOnOne 10 =
      .error (.panic "runtime error: makeslice: cap out of range") := by
  decide +kernel

end Contract

end greedy
