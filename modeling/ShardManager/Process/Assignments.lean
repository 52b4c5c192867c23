import ShardManager.Process.Passes

open golang store plan types

namespace process

variable {F : Type} [Float64 F]

/-- The intermediate results of a planning pass that did not fail. -/
structure PlannedBy (choices : Choices) (cfg : Config F) (state : NamespaceState F)
    (stale : Map String Int) (active : List String) (p : Planned) : Prop where
  deleted : findDeletedShards choices.order state = .ok p.deletedShards
  found : findShardsToReassign choices.order cfg.namespaceCfg
    (Map.ofList (active.map fun executorID => (executorID, ()))) state p.deletedShards =
      .ok (p.shardsToReassign, p.keptAssignments)
  unassign : p.executorsToUnassign = findExecutorsToUnassign state
    (Map.ofList (active.map fun executorID => (executorID, ()))) stale
  drained : p.drainedAssignedShards = findDrainedAssignedShards state active
  rebalanced : ∃ filled updated,
    assignShardsToEmptyExecutors p.keptAssignments = .ok (p.assignedToEmptyExecutors, filled) ∧
    updateAssignments choices.randomStart p.shardsToReassign active filled =
      (p.updatedAssignments, updated) ∧
    loadbalancer.planRebalance choices.order cfg.loadBalancing state updated choices.planTime =
      .ok p.loadBalanceMoves ∧
    applyMoves updated p.loadBalanceMoves = .ok p.currentAssignments

theorem planAssignments_ok {choices : Choices} {cfg : Config F} {state : NamespaceState F}
    {stale : Map String Int} {active : List String} {p : Planned}
    (h : planAssignments choices cfg state stale active = .ok p) :
    PlannedBy choices cfg state stale active p := by
  obtain ⟨deleted, hdeleted, h⟩ := bind_eq_ok_iff.mp h
  obtain ⟨⟨reassign, kept⟩, hfound, h⟩ := bind_eq_ok_iff.mp h
  obtain ⟨⟨assignedToEmpty, filled⟩, hfilled, h⟩ := bind_eq_ok_iff.mp h
  obtain ⟨moves, hmoves, h⟩ := bind_eq_ok_iff.mp h
  obtain ⟨current, hcurrent, h⟩ := bind_eq_ok_iff.mp h
  rw [mapError_eq_ok_iff] at hmoves hcurrent
  cases h
  exact ⟨hdeleted, hfound, rfl, rfl, filled, _, hfilled, rfl, hmoves, hcurrent⟩

namespace PlannedBy

variable {choices : Choices} {cfg : Config F} {state : NamespaceState F} {stale : Map String Int}
  {active : List String} {p : Planned}

omit [Float64 F] in
theorem mem_assignableExecutors {executorID : String} :
    executorID ∈ (Map.ofList (active.map fun executorID => (executorID, ())) : KeySet String) ↔
      executorID ∈ active := by
  rw [Map.mem_ofList]
  simp

/-- No pass loses or duplicates a shard: the final assignments distribute the
available shards over the active executors. -/
theorem distributes [LawfulFloat64 F] (h : PlannedBy choices cfg state stale active p)
    (hactive : active ≠ []) {available : List String}
    (hfound : FoundShards state (Map.ofList (active.map fun executorID => (executorID, ())))
      available p.shardsToReassign p.keptAssignments) :
    Distributes p.currentAssignments (· ∈ active) available := by
  obtain ⟨filled, updated, hfilled, hupdated, hmoves, hcurrent⟩ := h.rebalanced
  have hkept : Distributes p.keptAssignments (· ∈ active) (ListMap.elements p.keptAssignments) :=
    ⟨fun e => (hfound.keys e).trans mem_assignableExecutors, List.Perm.refl _⟩
  have hfilled' := assignShardsToEmptyExecutors_distributes hkept hfilled
  have hupdated' := updateAssignments_distributes hactive hfilled' choices.randomStart p.shardsToReassign
  rw [hupdated] at hupdated'
  have hto : ∀ move ∈ p.loadBalanceMoves, move.toID ∈ active :=
    fun move hmove => (hupdated'.keys _).mp (loadbalancer.planRebalance_toID hmoves move hmove)
  have hfinal := applyMoves_distributes hupdated' hto hcurrent
  exact ⟨hfinal.keys, hfinal.perm.trans hfound.perm⟩

/-- Without empty executors and moves, a kept shard stays where it is. -/
theorem kept_of_no_moves (h : PlannedBy choices cfg state stale active p)
    (hnonempty : ∀ executorID ∈ p.keptAssignments, ListMap.index p.keptAssignments executorID ≠ [])
    (hmoves : p.loadBalanceMoves = []) {executorID shardID : String}
    (hmem : shardID ∈ ListMap.index p.keptAssignments executorID) :
    shardID ∈ ListMap.index p.currentAssignments executorID := by
  obtain ⟨filled, updated, hfilled, hupdated, -, hcurrent⟩ := h.rebalanced
  rw [assignShardsToEmptyExecutors_of_nonempty hnonempty, Except.ok.injEq, Prod.mk.injEq] at hfilled
  rw [hmoves] at hcurrent
  cases hcurrent
  have hkept := mem_updateAssignments choices.randomStart p.shardsToReassign active hmem
  rwa [hfilled.2, hupdated] at hkept

end PlannedBy

omit [Float64 F] in
/-- An available shard whose only stored owner is assignable is kept by it. -/
theorem FoundShards.kept_of_sole_owner {state : NamespaceState F} {assignable : KeySet String}
    {available shardsToReassign : List String} {current : ListMap String String}
    (h : FoundShards state assignable available shardsToReassign current) {executorID shardID : String}
    (havailable : shardID ∈ available) (hassignable : executorID ∈ assignable)
    (hsole : ∀ e, state.Stores e shardID ↔ e = executorID) :
    shardID ∈ ListMap.index current executorID := by
  rcases List.mem_append.mp (h.perm.mem_iff.mpr havailable) with hreassigned | hkept
  · rcases h.of_reassigned hreassigned with ⟨e, hnot, hstores⟩ | hnone
    · exact absurd ((hsole e).mp hstores ▸ hassignable) hnot
    · exact absurd ((hsole executorID).mpr rfl) (hnone executorID)
  · obtain ⟨e, hindex⟩ := ListMap.mem_elements.mp hkept
    rwa [(hsole e).mp (h.stores_of_kept hindex)] at hindex

/-- A planning pass that does not fail assigns exactly the undrained shards of
the namespace, each once, to exactly the assignable executors, whatever the
snapshot stores. When it has no empty executor to fill and no load to move, a
shard stays with its sole owner. Float operations are only assumed to order
and add as IEEE 754 says. -/
theorem planAssignments_spec [LawfulFloat64 F] (choices : Choices) (cfg : Config F)
    (state : NamespaceState F) (p : Planned)
    (hactive : ∃ executorID,
      state.Assignable (identifyStaleExecutors cfg.heartbeatTTL choices.now state) executorID)
    (hplan : planAssignments choices cfg state
      (identifyStaleExecutors cfg.heartbeatTTL choices.now state)
      (state.assignableExecutorIDs (identifyStaleExecutors cfg.heartbeatTTL choices.now state)) = .ok p) :
    ∃ shards, findDeletedShards choices.order state = .ok p.deletedShards ∧
      getShards choices.order cfg.namespaceCfg state p.deletedShards = .ok shards ∧
      (∀ executorID, executorID ∈ p.currentAssignments ↔
        state.Assignable (identifyStaleExecutors cfg.heartbeatTTL choices.now state) executorID) ∧
      (∀ shardID, (∃ executorID, shardID ∈ ListMap.index p.currentAssignments executorID) ↔
        shardID ∈ shards ∧ state.isShardDrained shardID = false) ∧
      (∀ executorID, (ListMap.index p.currentAssignments executorID).Nodup) ∧
      (∀ shardID e e', shardID ∈ ListMap.index p.currentAssignments e →
        shardID ∈ ListMap.index p.currentAssignments e' → e = e') ∧
      ((∀ executorID ∈ p.keptAssignments, ListMap.index p.keptAssignments executorID ≠ []) →
        p.loadBalanceMoves = [] → ∀ shardID executorID, shardID ∈ shards →
        state.isShardDrained shardID = false →
        state.Assignable (identifyStaleExecutors cfg.heartbeatTTL choices.now state) executorID →
        (∀ e, state.Stores e shardID ↔ e = executorID) →
        shardID ∈ ListMap.index p.currentAssignments executorID) := by
  have hplanned := planAssignments_ok hplan
  obtain ⟨shards, available, hshards, havailable, hfound⟩ := findShardsToReassign_ok hplanned.found
  obtain ⟨first, hfirst⟩ := hactive
  have hactive' := List.ne_nil_of_mem (NamespaceState.mem_assignableExecutorIDs.mpr hfirst)
  have hdist := hplanned.distributes hactive' hfound
  have hnodup := hdist.perm.nodup_iff.mpr hfound.nodup
  refine ⟨shards, hplanned.deleted, hshards, ?_, ?_, ListMap.index_nodup hnodup, ?_, ?_⟩
  · exact fun e => (hdist.keys e).trans NamespaceState.mem_assignableExecutorIDs
  · intro shardID
    rw [← havailable, ← hdist.perm.mem_iff, ListMap.mem_elements]
  · exact fun _ _ _ he he' => ListMap.index_unique hnodup he he'
  · intro hnonempty hmoves shardID executorID hmem hdrained hassignable hsole
    refine hplanned.kept_of_no_moves hnonempty hmoves ?_
    refine hfound.kept_of_sole_owner ((havailable _).mpr ⟨hmem, hdrained⟩) ?_ hsole
    exact PlannedBy.mem_assignableExecutors.mpr (NamespaceState.mem_assignableExecutorIDs.mpr hassignable)

section Examples

/-- A namespace of three fixed shards under naive balancing. -/
def threeShards : Config ExactFloat where
  namespaceCfg := ⟨"orders", .fixed, 3⟩
  heartbeatTTL := 10
  loadBalancing := ⟨.naive, Float64.ofInt 1, ⟨0, Float64.zero, Float64.zero, Float64.zero, Float64.zero⟩⟩

/-- An ACTIVE executor that reports the given shards. -/
def reporting (reports : List (String × ShardStatus)) : HeartbeatState ExactFloat where
  lastHeartbeat := 1
  status := .active
  reportedShards := Map.ofList (reports.map fun (shardID, status) => (shardID, some ⟨status, Float64.zero⟩))
  metadata := ∅
  hostMetadata := none

/-- Maps visited as stored, the round robin from the first executor, and a
clock at which every heartbeat is recent. -/
def firstChoices : Choices := ⟨.stored, 0, 2, 2, 2⟩

def settledShards : List (String × List String) := [("a", ["0", "2"]), ("b", ["1"])]

def settled : NamespaceState ExactFloat :=
  .ofStored [("a", reporting []), ("b", reporting [])] settledShards

/-- The hypotheses hold of a settled namespace. -/
theorem settled_planned :
    ∃ p : Planned, planAssignments firstChoices threeShards settled
        (identifyStaleExecutors threeShards.heartbeatTTL firstChoices.now settled)
        (settled.assignableExecutorIDs
          (identifyStaleExecutors threeShards.heartbeatTTL firstChoices.now settled)) = .ok p ∧
      ∀ executorID, executorID ∈ p.currentAssignments ↔ settled.Assignable
        (identifyStaleExecutors threeShards.heartbeatTTL firstChoices.now settled) executorID := by
  obtain ⟨p, hp⟩ := exists_ok_of_isOk (x := planAssignments firstChoices threeShards settled
    (identifyStaleExecutors threeShards.heartbeatTTL firstChoices.now settled)
    (settled.assignableExecutorIDs
      (identifyStaleExecutors threeShards.heartbeatTTL firstChoices.now settled))) (by decide +kernel)
  obtain ⟨_, -, -, hkeys, -⟩ :=
    planAssignments_spec firstChoices threeShards settled p ⟨"a", _, rfl, by decide +kernel⟩ hp
  exact ⟨p, hp, hkeys⟩

end Examples

end process
