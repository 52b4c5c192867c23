import ShardManager.ExecutorStore.AssignShards
import ShardManager.Process.ChangeDetection

open golang store plan types

namespace process

variable {F : Type}

theorem mem_readyShards {shardIDs : List String} {shardID : String} :
    shardID ∈ readyShards shardIDs ↔ shardID ∈ shardIDs := by
  simp [readyShards, Map.mem_ofList, Function.comp_def]

/-- The same shards with the same statuses. -/
def SameShards (a b : Map String (Option ShardAssignment)) : Prop :=
  ∀ shardID, (a.lookup shardID).map ShardAssignment.getStatus = (b.lookup shardID).map ShardAssignment.getStatus

theorem SameShards.mem_iff {a b : Map String (Option ShardAssignment)} (h : SameShards a b) (shardID : String) :
    shardID ∈ a ↔ shardID ∈ b := by
  rw [← AList.lookup_isSome, ← AList.lookup_isSome, ← Option.isSome_map, h shardID, Option.isSome_map]

theorem shardSetsEqual_iff {a b : Map String (Option ShardAssignment)} :
    shardSetsEqual a b = true ↔ SameShards a b := by
  simp only [shardSetsEqual, Bool.and_eq_true, decide_eq_true_eq, List.all_eq_true, Prod.forall, Map.mem_toList_iff]
  constructor
  · rintro ⟨hlength, hall⟩
    have hsame : ∀ shardID va, a.lookup shardID = some va →
        (a.lookup shardID).map ShardAssignment.getStatus = (b.lookup shardID).map ShardAssignment.getStatus := by
      intro shardID va hva
      have hmatch := hall shardID va hva
      rw [hva]
      cases hvb : b.lookup shardID with
      | none =>
        rw [hvb] at hmatch
        cases hmatch
      | some vb =>
        rw [hvb] at hmatch
        exact congrArg some (of_decide_eq_true hmatch)
    have hsubset : a.keys ⊆ b.keys := by
      intro shardID hmem
      obtain ⟨va, hva⟩ := Map.mem_iff_exists_lookup.mp (AList.mem_keys.mpr hmem)
      have hstatus := hsame shardID va hva
      rw [hva, Option.map_some] at hstatus
      obtain ⟨vb, hvb, -⟩ := Option.map_eq_some_iff.mp hstatus.symm
      exact AList.mem_keys.mp (Map.mem_iff_exists_lookup.mpr ⟨vb, hvb⟩)
    -- As many keys as the other map, and all of them in it.
    have hperm : a.keys.Perm b.keys :=
      (List.subperm_of_subset a.keys_nodup hsubset).perm_of_length_le hlength.ge
    intro shardID
    cases hva : a.lookup shardID with
    | some va => exact hva ▸ hsame shardID va hva
    | none =>
      have hnot : shardID ∉ b := by
        rw [AList.mem_keys, ← hperm.mem_iff, ← AList.mem_keys]
        exact AList.lookup_eq_none.mp hva
      rw [AList.lookup_eq_none.mpr hnot]
  · intro hsame
    have hperm : a.keys.Perm b.keys := by
      rw [List.perm_ext_iff_of_nodup a.keys_nodup b.keys_nodup]
      exact fun shardID => hsame.mem_iff shardID
    refine ⟨hperm.length_eq, fun shardID va hva => ?_⟩
    have hstatus := hsame shardID
    rw [hva] at hstatus
    cases hvb : b.lookup shardID with
    | none =>
      rw [hvb] at hstatus
      cases hstatus
    | some vb =>
      rw [hvb, Option.map_some, Option.map_some, Option.some_inj] at hstatus
      exact decide_eq_true hstatus

theorem stores_iff_of_isUnchanged {state : NamespaceState F} {executorID : String} {shardIDs : List String}
    (h : isUnchanged state executorID shardIDs = true) (shardID : String) :
    state.Stores executorID shardID ↔ shardID ∈ shardIDs := by
  unfold isUnchanged at h
  cases hlookup : state.shardAssignments.lookup executorID with
  | none =>
    rw [hlookup] at h
    cases h
  | some old =>
    rw [hlookup] at h
    rw [NamespaceState.Stores, NamespaceState.assigned, hlookup, Option.getD_some,
      (shardSetsEqual_iff.mp h).mem_iff, mem_readyShards]

theorem lookup_identifyStaleExecutors {heartbeatTTL : Duration} {now : Time} {state : NamespaceState F}
    {executorID : String} {revision : Int}
    (h : (identifyStaleExecutors heartbeatTTL now state).lookup executorID = some revision) :
    executorID ∈ state.executors ∧ revision = (state.assigned executorID).modRevision := by
  obtain ⟨⟨e, heartbeat⟩, hmem, heq⟩ := List.mem_map.mp (Map.mem_of_lookup_ofList h)
  cases heq
  have hlookup := Map.mem_toList_iff.mp (List.mem_filter.mp hmem).1
  exact ⟨Map.mem_iff_exists_lookup.mpr ⟨_, hlookup⟩, rfl⟩

theorem lookup_findExecutorsToUnassign {state : NamespaceState F} {assignable : KeySet String}
    {stale : Map String Int} {executorID : String} {revision : Int}
    (h : (findExecutorsToUnassign state assignable stale).lookup executorID = some revision) :
    revision = (state.assigned executorID).modRevision := by
  obtain ⟨⟨e, assigned⟩, hmem, heq⟩ := List.mem_map.mp (Map.mem_of_lookup_ofList h)
  cases heq
  have hlookup := Map.mem_toList_iff.mp (List.mem_filter.mp hmem).1
  rw [NamespaceState.assigned, hlookup, Option.getD_some]

section Build

variable {state : NamespaceState F} {current : ListMap String String} {unassign : Map String Int}
  {owners : Map String String} {now : Time} {executorID : String}

theorem mem_buildNewAssignmentsState : executorID ∈ (buildNewAssignmentsState state current unassign owners now).1 ↔
    executorID ∈ current ∨ executorID ∈ unassign := by
  change executorID ∈ Map.ofList _ ↔ _
  rw [Map.mem_ofList, List.map_append, List.map_map, List.map_map, List.mem_append, AList.mem_keys, AList.mem_keys,
    ← Map.map_fst_toList, ← Map.map_fst_toList]
  rfl

/-- The new records: one for every assignable executor and an emptied one for
every executor that has to give up its shards. -/
theorem lookup_buildNewAssignmentsState (hdisjoint : ∀ executorID ∈ current, executorID ∉ unassign)
    {entry : AssignedState} :
    (buildNewAssignmentsState state current unassign owners now).1.lookup executorID = some entry ↔
      (∃ shardIDs, current.lookup executorID = some shardIDs ∧
        entry = newAssignedState state owners now executorID shardIDs) ∨
      ∃ revision, unassign.lookup executorID = some revision ∧ entry = ⟨∅, ∅, now, revision⟩ := by
  change (Map.ofList _).lookup executorID = some entry ↔ _
  rw [Map.lookup_ofList_iff]
  · simp only [List.mem_append, List.mem_map, Prod.exists, Map.mem_toList_iff, Prod.mk.injEq]
    constructor
    · rintro (⟨e, shardIDs, hlookup, rfl, rfl⟩ | ⟨e, revision, hlookup, rfl, rfl⟩)
      · exact .inl ⟨shardIDs, hlookup, rfl⟩
      · exact .inr ⟨revision, hlookup, rfl⟩
    · rintro (⟨shardIDs, hlookup, rfl⟩ | ⟨revision, hlookup, rfl⟩)
      · exact .inl ⟨executorID, shardIDs, hlookup, rfl, rfl⟩
      · exact .inr ⟨executorID, revision, hlookup, rfl, rfl⟩
  · rw [List.map_append, List.map_map, List.map_map, List.nodup_append]
    refine ⟨Map.nodup_map_fst_toList _, Map.nodup_map_fst_toList _, ?_⟩
    rintro e he e' he' rfl
    have hcurrent : e ∈ current := by
      rw [AList.mem_keys, ← Map.map_fst_toList]
      exact he
    have hunassign : e ∈ unassign := by
      rw [AList.mem_keys, ← Map.map_fst_toList]
      exact he'
    exact hdisjoint e hcurrent hunassign

/-- Marked as changed are the assignable executors that are not unchanged and
those that have to give up their shards. -/
theorem mem_changed_iff (owners : Map String String) (now : Time) :
    executorID ∈ (buildNewAssignmentsState state current unassign owners now).2 ↔
    (∃ shardIDs, current.lookup executorID = some shardIDs ∧ isUnchanged state executorID shardIDs = false) ∨
      executorID ∈ unassign := by
  change executorID ∈ (Map.ofList _ : KeySet String) ↔ _
  rw [Map.mem_ofList]
  simp [Function.comp_def, Map.mem_toList_iff, AList.mem_keys]

end Build

section Request

variable {choices : Choices} {state : NamespaceState F} {stale : Map String Int} {p : Planned}

theorem isWritten_iff {executorID : String} :
    executorstore.isWritten (assignShardsRequest choices state stale p) executorID = true ↔
      (∃ shardIDs, p.currentAssignments.lookup executorID = some shardIDs ∧
        isUnchanged state executorID shardIDs = false) ∨ executorID ∈ p.executorsToUnassign :=
  decide_eq_true_iff.trans (mem_changed_iff (state.shardOwners choices.order) choices.assignmentTime)

theorem isUnchanged_of_not_written {executorID : String} {shardIDs : List String}
    (hlookup : p.currentAssignments.lookup executorID = some shardIDs)
    (h : executorstore.isWritten (assignShardsRequest choices state stale p) executorID = false) :
    isUnchanged state executorID shardIDs = true := by
  by_contra hchanged
  rw [isWritten_iff.mpr (.inl ⟨shardIDs, hlookup, Bool.not_eq_true _ ▸ hchanged⟩)] at h
  cases h

theorem isWritten_of_unassign {executorID : String} {revision : Int}
    (h : p.executorsToUnassign.lookup executorID = some revision) :
    executorstore.isWritten (assignShardsRequest choices state stale p) executorID = true :=
  isWritten_iff.mpr (.inr (Map.mem_iff_exists_lookup.mpr ⟨_, h⟩))

end Request

section Allots

variable [Float64 F]

/-- What a plan leaves to be written: the available shards are distributed over
the assignable executors, and whoever else stores something gives it up. -/
structure Allots (choices : Choices) (cfg : Config F) (state : NamespaceState F) (stale : Map String Int)
    (p : Planned) (shards available : List String) : Prop where
  planned : PlannedBy choices cfg state stale (state.assignableExecutorIDs stale) p
  shards_eq : getShards choices.order cfg.namespaceCfg state p.deletedShards = .ok shards
  available_iff : ∀ shardID, shardID ∈ available ↔ shardID ∈ shards ∧ state.isShardDrained shardID = false
  nodup : available.Nodup
  distributes : Distributes p.currentAssignments (state.Assignable stale) available
  unassign : ∀ executorID, executorID ∈ p.executorsToUnassign ↔
    (∃ shardID, state.Stores executorID shardID) ∧ ¬state.Assignable stale executorID ∧ executorID ∉ stale

variable {choices : Choices} {cfg : Config F} {state : NamespaceState F} {stale : Map String Int} {p : Planned}

theorem allots_of_planAssignments [LawfulFloat64 F] (hactive : ∃ executorID, state.Assignable stale executorID)
    (hplan : planAssignments choices cfg state stale (state.assignableExecutorIDs stale) = .ok p) :
    ∃ shards available, Allots choices cfg state stale p shards available := by
  obtain ⟨first, hfirst⟩ := hactive
  have hplanned := planAssignments_ok hplan
  obtain ⟨shards, available, hshards, havailable, hfound⟩ := findShardsToReassign_ok hplanned.found
  have hne := List.ne_nil_of_mem (NamespaceState.mem_assignableExecutorIDs.mpr hfirst)
  have hdist := hplanned.distributes hne hfound
  refine ⟨shards, available, hplanned, hshards, havailable, hfound.nodup, ⟨?_, hdist.perm⟩, ?_⟩
  · exact fun e => (hdist.keys e).trans NamespaceState.mem_assignableExecutorIDs
  · intro e
    rw [hplanned.unassign, mem_findExecutorsToUnassign, PlannedBy.mem_assignableExecutors,
      NamespaceState.mem_assignableExecutorIDs]

namespace Allots

variable {shards available : List String} (h : Allots choices cfg state stale p shards available)

include h

theorem mem_available {executorID shardID : String}
    (hmem : shardID ∈ ListMap.index p.currentAssignments executorID) : shardID ∈ available :=
  h.distributes.perm.mem_iff.mp (ListMap.mem_elements.mpr ⟨_, hmem⟩)

theorem lookup_request {executorID : String} {entry : AssignedState} :
    (assignShardsRequest choices state stale p).newState.shardAssignments.lookup executorID = some entry ↔
      (∃ shardIDs, p.currentAssignments.lookup executorID = some shardIDs ∧
        entry = newAssignedState state (state.shardOwners choices.order) choices.assignmentTime
          executorID shardIDs) ∨
      ∃ revision, p.executorsToUnassign.lookup executorID = some revision ∧
        entry = ⟨∅, ∅, choices.assignmentTime, revision⟩ := by
  refine lookup_buildNewAssignmentsState fun e hcurrent hunassign => ?_
  exact ((h.unassign e).mp hunassign).2.1 ((h.distributes.keys e).mp hcurrent)

theorem mem_request {executorID : String} :
    executorID ∈ (assignShardsRequest choices state stale p).newState.shardAssignments ↔
      state.Assignable stale executorID ∨ executorID ∈ p.executorsToUnassign := by
  rw [← h.distributes.keys]
  exact mem_buildNewAssignmentsState

theorem mem_entry {executorID shardID : String} {entry : AssignedState}
    (hlookup : (assignShardsRequest choices state stale p).newState.shardAssignments.lookup executorID =
      some entry) :
    shardID ∈ entry.assignedShards ↔ shardID ∈ ListMap.index p.currentAssignments executorID := by
  rcases h.lookup_request.mp hlookup with ⟨shardIDs, hcurrent, rfl⟩ | ⟨revision, hun, rfl⟩
  · rw [ListMap.index_of_lookup hcurrent]
    exact mem_readyShards
  · have hnot : executorID ∉ p.currentAssignments := by
      rw [h.distributes.keys]
      exact ((h.unassign _).mp (Map.mem_iff_exists_lookup.mpr ⟨_, hun⟩)).2.1
    rw [ListMap.index_of_not_mem hnot]
    exact iff_of_false (AList.notMem_empty _) List.not_mem_nil

end Allots

end Allots

end process
