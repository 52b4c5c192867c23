import ShardManager.Process.Rebalance

open golang store plan types

namespace process

variable {F : Type}

section Unchanged

theorem eq_empty_of_length_eq_zero {κ β : Type} {m : Map κ β} (h : m.keys.length = 0) (k : κ) : k ∉ m := by
  rw [AList.mem_keys, List.length_eq_zero_iff.mp h]
  exact List.not_mem_nil

/-- What a planning pass found when it does not ask for a write. -/
structure Unchanged (stale : Map String Int) (p : Planned) : Prop where
  deleted : ∀ shardID, shardID ∉ p.deletedShards
  stale : ∀ executorID, executorID ∉ stale
  moves : p.loadBalanceMoves = []
  drained : p.drainedAssignedShards = []
  unassign : ∀ executorID, executorID ∉ p.executorsToUnassign
  assignedToEmpty : p.assignedToEmptyExecutors = false
  updated : p.updatedAssignments = false

theorem unchanged_of_distributionChanged_eq_false {stale : Map String Int} {p : Planned}
    (h : distributionChanged stale p = false) : Unchanged stale p := by
  simp only [distributionChanged, Bool.or_eq_false_iff, decide_eq_false_iff_not, gt_iff_lt,
    Nat.not_lt, Nat.le_zero] at h
  obtain ⟨⟨⟨⟨⟨⟨hdeleted, hstale⟩, hmoves⟩, hdrained⟩, hunassign⟩, hempty⟩, hupdated⟩ := h
  exact ⟨eq_empty_of_length_eq_zero hdeleted, eq_empty_of_length_eq_zero hstale,
    List.length_eq_zero_iff.mp hmoves, List.length_eq_zero_iff.mp hdrained,
    eq_empty_of_length_eq_zero hunassign, hempty, hupdated⟩

theorem assignShardsToEmptyExecutors_false {current current' : ListMap String String}
    (h : assignShardsToEmptyExecutors current = .ok (false, current')) : current' = current := by
  unfold assignShardsToEmptyExecutors at h
  dsimp only at h
  split at h
  · cases h
    rfl
  · obtain ⟨next, -, h⟩ := bind_eq_ok_iff.mp h
    cases h

theorem updateAssignments_false {randomStart : Nat} {shards active : List String}
    {current current' : ListMap String String}
    (h : updateAssignments randomStart shards active current = (false, current')) :
    shards = [] ∧ current' = current := by
  unfold updateAssignments at h
  split at h
  · rename_i hnil
    cases h
    exact ⟨hnil, rfl⟩
  · cases h

/-- Without a change, the assignments are those `findShardsToReassign` kept. -/
theorem PlannedBy.current_of_unchanged [Float64 F] {choices : Choices} {cfg : Config F}
    {state : NamespaceState F} {stale : Map String Int} {active : List String} {p : Planned}
    (h : PlannedBy choices cfg state stale active p) (hunchanged : Unchanged stale p) :
    p.currentAssignments = p.keptAssignments ∧ p.shardsToReassign = [] := by
  obtain ⟨filled, updated, hfilled, hupdated, -, hcurrent⟩ := h.rebalanced
  rw [hunchanged.assignedToEmpty] at hfilled
  rw [hunchanged.updated] at hupdated
  rw [hunchanged.moves] at hcurrent
  cases hcurrent
  obtain ⟨hnil, hsame⟩ := updateAssignments_false hupdated
  exact ⟨hsame.trans (assignShardsToEmptyExecutors_false hfilled), hnil⟩

end Unchanged

theorem mem_findExecutorsToUnassign {state : NamespaceState F} {assignable : KeySet String}
    {stale : Map String Int} {executorID : String} :
    executorID ∈ findExecutorsToUnassign state assignable stale ↔
      (∃ shardID, state.Stores executorID shardID) ∧ executorID ∉ assignable ∧ executorID ∉ stale := by
  rw [findExecutorsToUnassign, Map.mem_ofList]
  simp only [List.map_map, List.mem_map, List.mem_filter, Prod.exists, Map.mem_toList_iff,
    decide_eq_true_eq, Function.comp_apply, NamespaceState.stores_iff]
  constructor
  · rintro ⟨e, assigned, ⟨hlookup, hne, hassignable, hstale⟩, rfl⟩
    obtain ⟨shardID, hmem⟩ := List.exists_mem_of_length_pos (Nat.pos_of_ne_zero hne)
    exact ⟨⟨shardID, assigned, hlookup, AList.mem_keys.mpr hmem⟩, hassignable, hstale⟩
  · rintro ⟨⟨shardID, assigned, hlookup, hmem⟩, hassignable, hstale⟩
    refine ⟨executorID, assigned, ⟨hlookup, ?_, hassignable, hstale⟩, rfl⟩
    exact (List.length_pos_of_mem (AList.mem_keys.mp hmem)).ne'

theorem mem_findDrainedAssignedShards {state : NamespaceState F} {executors : List String}
    {shardID : String} : shardID ∈ findDrainedAssignedShards state executors ↔
      state.isShardDrained shardID = true ∧ ∃ executorID ∈ executors, state.Stores executorID shardID := by
  rw [findDrainedAssignedShards, ← AList.mem_keys, Map.mem_ofList]
  simp only [List.map_map, List.mem_map, List.mem_flatMap, List.mem_filter, ← AList.mem_keys,
    NamespaceState.Stores, Function.comp_apply, exists_eq_right]
  constructor
  · rintro ⟨e, he, hstores, hdrained⟩
    exact ⟨hdrained, e, he, hstores⟩
  · rintro ⟨hdrained, e, he, hstores⟩
    exact ⟨e, he, hstores, hdrained⟩

/-- The stored assignments are those computed, so an executor that is not
assignable stores nothing. -/
structure StoredAgrees (state : NamespaceState F) (stale : Map String Int)
    (current : ListMap String String) : Prop where
  stored_iff : ∀ executorID shardID,
    state.Stores executorID shardID ↔ shardID ∈ ListMap.index current executorID
  not_assignable : ∀ executorID, ¬state.Assignable stale executorID →
    ∀ shardID, ¬state.Stores executorID shardID

variable [Float64 F]

/-- When a rebalance with an assignable executor decides on no write, the
store agrees with what it computed exactly if no shard is stored under two
assignable executors and every shard stored under one is a shard of the
namespace: neither is among the symptoms that are checked. -/
theorem unchanged_agrees_iff (choices : Choices) (cfg : Config F) (state : NamespaceState F)
    (p : Planned) (deleted : Map String ShardState) (shards : List String)
    (hactive : ∃ executorID,
      state.Assignable (identifyStaleExecutors cfg.heartbeatTTL choices.now state) executorID)
    (hplan : planAssignments choices cfg state
      (identifyStaleExecutors cfg.heartbeatTTL choices.now state)
      (state.assignableExecutorIDs (identifyStaleExecutors cfg.heartbeatTTL choices.now state)) = .ok p)
    (hnothing : rebalanceShardsImpl choices cfg state = .ok .nothing)
    (hdeleted : findDeletedShards choices.order state = .ok deleted)
    (hshards : getShards choices.order cfg.namespaceCfg state deleted = .ok shards) :
    StoredAgrees state (identifyStaleExecutors cfg.heartbeatTTL choices.now state)
        p.currentAssignments ↔
      (∀ shardID e e',
        state.Assignable (identifyStaleExecutors cfg.heartbeatTTL choices.now state) e →
        state.Assignable (identifyStaleExecutors cfg.heartbeatTTL choices.now state) e' →
        state.Stores e shardID → state.Stores e' shardID → e = e') ∧
      ∀ executorID shardID,
        state.Assignable (identifyStaleExecutors cfg.heartbeatTTL choices.now state) executorID →
        state.Stores executorID shardID → shardID ∈ shards := by
  generalize hstale : identifyStaleExecutors cfg.heartbeatTTL choices.now state = stale at *
  have hplanned := planAssignments_ok hplan
  have hunchanged : Unchanged stale p := by
    rcases rebalanceShardsImpl_ok hstale hnothing with ⟨hnone, -⟩ | ⟨-, p', hp', hdecision⟩
    · obtain ⟨first, hfirst⟩ := hactive
      exact absurd hfirst (hnone first)
    · rw [hplan, Except.ok.injEq] at hp'
      subst hp'
      rcases hdecision with ⟨hchanged, -⟩ | ⟨-, hassign⟩
      · exact unchanged_of_distributionChanged_eq_false hchanged
      · cases hassign
  obtain ⟨hcurrent, hnil⟩ := hplanned.current_of_unchanged hunchanged
  rw [hcurrent]
  obtain ⟨shards', available, hshards', havailable, hfound⟩ := findShardsToReassign_ok hplanned.found
  rw [hplanned.deleted, Except.ok.injEq] at hdeleted
  rw [hdeleted, hshards, Except.ok.injEq] at hshards'
  subst hshards'
  have hperm : (ListMap.elements p.keptAssignments).Perm available := by
    have hperm := hfound.perm
    rwa [hnil, List.nil_append] at hperm
  have hnodup := hperm.nodup_iff.mpr hfound.nodup
  have hassignable : ∀ {executorID shardID}, state.Stores executorID shardID →
      state.Assignable stale executorID := by
    intro executorID shardID hstores
    by_contra hnot
    refine hunchanged.unassign executorID ?_
    rw [hplanned.unassign, mem_findExecutorsToUnassign, PlannedBy.mem_assignableExecutors,
      NamespaceState.mem_assignableExecutorIDs]
    exact ⟨⟨shardID, hstores⟩, hnot, hunchanged.stale executorID⟩
  constructor
  · intro h
    refine ⟨fun shardID e e' _ _ he he' => ?_, fun e shardID _ hstores => ?_⟩
    · exact ListMap.index_unique hnodup ((h.stored_iff _ _).mp he) ((h.stored_iff _ _).mp he')
    · have hmem := ListMap.mem_elements.mpr ⟨e, (h.stored_iff _ _).mp hstores⟩
      exact ((havailable _).mp (hperm.mem_iff.mp hmem)).1
  · rintro ⟨hexclusive, hinside⟩
    refine ⟨fun executorID shardID => ⟨fun hstores => ?_, hfound.stores_of_kept⟩, ?_⟩
    · have hdrained : state.isShardDrained shardID = false := by
        by_contra hdrained
        rw [Bool.not_eq_false] at hdrained
        have hmem := mem_findDrainedAssignedShards.mpr ⟨hdrained, executorID,
          NamespaceState.mem_assignableExecutorIDs.mpr (hassignable hstores), hstores⟩
        rw [← hplanned.drained, hunchanged.drained] at hmem
        cases hmem
      have havail : shardID ∈ available :=
        (havailable shardID).mpr ⟨hinside executorID shardID (hassignable hstores) hstores, hdrained⟩
      obtain ⟨owner, howner⟩ := ListMap.mem_elements.mp (hperm.mem_iff.mpr havail)
      have hstores' := hfound.stores_of_kept howner
      rwa [hexclusive shardID executorID owner (hassignable hstores) (hassignable hstores') hstores hstores']
    · exact fun executorID hnot shardID hstores => hnot (hassignable hstores)

section Examples

/-- Both executors are recorded as the owner of shard 0. -/
def ownedTwice : NamespaceState ExactFloat :=
  .ofStored [("a", reporting []), ("b", reporting [])] [("a", ["0", "2"]), ("b", ["0", "1"])]

def Decision.isNothing : Except Failure (Decision F) → Bool
  | .ok .nothing => true
  | _ => false

omit [Float64 F] in
theorem eq_nothing_of_isNothing {d : Except Failure (Decision F)} (h : Decision.isNothing d = true) :
    d = .ok .nothing := by
  unfold Decision.isNothing at h
  split at h
  · rfl
  · cases h

/-- The hypotheses hold of a settled namespace, which the store agrees with. -/
theorem settled_agrees :
    ∃ p : Planned, planAssignments firstChoices threeShards settled
        (identifyStaleExecutors threeShards.heartbeatTTL firstChoices.now settled)
        (settled.assignableExecutorIDs
          (identifyStaleExecutors threeShards.heartbeatTTL firstChoices.now settled)) = .ok p ∧
      rebalanceShardsImpl firstChoices threeShards settled = .ok .nothing ∧
      StoredAgrees settled (identifyStaleExecutors threeShards.heartbeatTTL firstChoices.now settled)
        p.currentAssignments := by
  obtain ⟨p, hp⟩ := exists_ok_of_isOk (x := planAssignments firstChoices threeShards settled
    (identifyStaleExecutors threeShards.heartbeatTTL firstChoices.now settled)
    (settled.assignableExecutorIDs
      (identifyStaleExecutors threeShards.heartbeatTTL firstChoices.now settled))) (by decide +kernel)
  have hnothing : rebalanceShardsImpl firstChoices threeShards settled = .ok .nothing :=
    eq_nothing_of_isNothing (by decide +kernel)
  refine ⟨p, hp, hnothing, (unchanged_agrees_iff firstChoices threeShards settled p ∅ ["0", "1", "2"]
    ⟨"a", _, rfl, by decide +kernel⟩ hp hnothing rfl rfl).mpr ⟨?_, ?_⟩⟩
  · intro shardID e e' _ _ he he'
    obtain ⟨l, hl, hmem⟩ := (NamespaceState.stores_ofStored (by decide)).mp he
    obtain ⟨l', hl', hmem'⟩ := (NamespaceState.stores_ofStored (by decide)).mp he'
    exact (by decide : ∀ x ∈ settledShards, ∀ y ∈ settledShards, ∀ s ∈ x.2, s ∈ y.2 → x.1 = y.1)
      _ hl _ hl' shardID hmem hmem'
  · intro e shardID _ he
    obtain ⟨l, hl, hmem⟩ := (NamespaceState.stores_ofStored (by decide)).mp he
    exact (by decide : ∀ x ∈ settledShards, ∀ s ∈ x.2, s ∈ ["0", "1", "2"]) _ hl shardID hmem

/-- A shard recorded under two executors stays so: the rebalance drops one of
the owners from its plan and then finds nothing to write. -/
theorem ownedTwice_unchanged :
    ∃ p, planAssignments firstChoices threeShards ownedTwice
        (identifyStaleExecutors threeShards.heartbeatTTL firstChoices.now ownedTwice)
        (ownedTwice.assignableExecutorIDs
          (identifyStaleExecutors threeShards.heartbeatTTL firstChoices.now ownedTwice)) = .ok p ∧
      rebalanceShardsImpl firstChoices threeShards ownedTwice = .ok .nothing ∧
      ownedTwice.Stores "a" "0" ∧ ownedTwice.Stores "b" "0" ∧
      ¬StoredAgrees ownedTwice
        (identifyStaleExecutors threeShards.heartbeatTTL firstChoices.now ownedTwice)
        p.currentAssignments := by
  obtain ⟨p, hp⟩ := exists_ok_of_isOk (x := planAssignments firstChoices threeShards ownedTwice
    (identifyStaleExecutors threeShards.heartbeatTTL firstChoices.now ownedTwice)
    (ownedTwice.assignableExecutorIDs
      (identifyStaleExecutors threeShards.heartbeatTTL firstChoices.now ownedTwice))) (by decide +kernel)
  refine ⟨p, hp, eq_nothing_of_isNothing (by decide +kernel), by decide, by decide, fun h => ?_⟩
  have hkept : (planAssignments firstChoices threeShards ownedTwice
      (identifyStaleExecutors threeShards.heartbeatTTL firstChoices.now ownedTwice)
      (ownedTwice.assignableExecutorIDs (identifyStaleExecutors threeShards.heartbeatTTL
        firstChoices.now ownedTwice))).toOption.map
      (fun p => ListMap.index p.currentAssignments "a") = some ["2"] := by
    decide +kernel
  rw [hp] at hkept
  have hindex : ListMap.index p.currentAssignments "a" = ["2"] := Option.some.inj hkept
  have hmem := (h.stored_iff "a" "0").mp (by decide)
  rw [hindex] at hmem
  exact absurd hmem (by decide)

end Examples

end process
