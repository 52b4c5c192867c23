import ShardManager.Replicas.Effect

open golang etcd etcdkeys store types executorstore

namespace replicas

open etcdtypes (Encoding Value)

variable {F : Type} [Encoding F] {pre ns : String} {s s' : Store (Value F)} {state : NamespaceState F}
  {request : AssignShardsRequest F} {executorID : String}

/-- The record of an executor once a request is applied to a snapshot:
executors are deleted, then the changed records written. -/
def applied (request : AssignShardsRequest F) (state : NamespaceState F) (executorID : String) : Option AssignedState :=
  if executorID ∈ request.newState.shardAssignments ∧ isWritten request executorID = true then
    request.newState.shardAssignments.lookup executorID
  else if executorID ∈ request.executorsToDelete then none
  else state.shardAssignments.lookup executorID

omit [Encoding F] in
theorem applied_of_written {entry : AssignedState}
    (hlookup : request.newState.shardAssignments.lookup executorID = some entry)
    (hwritten : isWritten request executorID = true) : applied request state executorID = some entry := by
  have hmem := Map.mem_iff_exists_lookup.mpr ⟨entry, hlookup⟩
  rw [applied, if_pos ⟨hmem, hwritten⟩, hlookup]

omit [Encoding F] in
theorem applied_of_unwritten
    (hwritten : executorID ∈ request.newState.shardAssignments → isWritten request executorID = false) :
    applied request state executorID =
      if executorID ∈ request.executorsToDelete then none else state.shardAssignments.lookup executorID := by
  refine if_neg fun ⟨hmem, h⟩ => ?_
  rw [hwritten hmem] at h
  cases h

end replicas

namespace process

open replicas

variable {F : Type}

/-- The request with new records and marks. -/
def requestOf (state : NamespaceState F) (stale : Map String Int) (built : Map String AssignedState × KeySet String) :
    AssignShardsRequest F where
  newState := { state with shardAssignments := built.1 }
  executorsToDelete := stale
  changedExecutors := some built.2

theorem isWritten_requestOf {state : NamespaceState F} {stale : Map String Int}
    {built : Map String AssignedState × KeySet String} {executorID : String} :
    isWritten (requestOf state stale built) executorID = true ↔ executorID ∈ built.2 :=
  decide_eq_true_iff

/-- What makes new records and marks the difference between a snapshot and the
assignments it is to have. -/
structure Difference (state : NamespaceState F) (stale : Map String Int) (current : ListMap String String)
    (built : Map String AssignedState × KeySet String) : Prop where
  changed_entries : ∀ executorID ∈ built.2, executorID ∈ built.1
  changed_iff : ∀ {executorID entry}, built.1.lookup executorID = some entry →
    (executorID ∈ built.2 ↔ state.shardAssignments.lookup executorID = none ∨
      ∃ record, state.shardAssignments.lookup executorID = some record ∧
        ¬SameShards record.assignedShards entry.assignedShards)
  modRevision : ∀ {executorID entry}, built.1.lookup executorID = some entry →
    entry.modRevision = ((state.shardAssignments.lookup executorID).map AssignedState.modRevision).getD 0
  lastUpdated : ∀ {executorID entry record}, built.1.lookup executorID = some entry → executorID ∉ built.2 →
    state.shardAssignments.lookup executorID = some record → entry.lastUpdated = record.lastUpdated
  not_stale : ∀ executorID ∈ built.1, executorID ∉ stale
  covers : ∀ {executorID record}, state.shardAssignments.lookup executorID = some record →
    executorID ∈ built.1 ∨ stale.lookup executorID = some record.modRevision ∨
      executorID ∉ stale ∧ ¬state.Assignable stale executorID ∧ record.assignedShards.keys = []
  assigns : ∀ {executorID shardIDs}, current.lookup executorID = some shardIDs →
    ∃ record, applied (requestOf state stale built) state executorID = some record ∧
      SameShards record.assignedShards (readyShards shardIDs)
  clears : ∀ {executorID record}, executorID ∉ current →
    applied (requestOf state stale built) state executorID = some record →
      record.assignedShards.keys = []

theorem isUnchanged_iff_sameShards {state : NamespaceState F} {executorID : String} {shardIDs : List String} :
    isUnchanged state executorID shardIDs = true ↔ ∃ record, state.shardAssignments.lookup executorID = some record ∧
      SameShards record.assignedShards (readyShards shardIDs) := by
  unfold isUnchanged
  cases state.shardAssignments.lookup executorID with
  | none => simp
  | some record => simp [shardSetsEqual_iff]

theorem isUnchanged_eq_false_iff {state : NamespaceState F} {executorID : String} {shardIDs : List String} :
    isUnchanged state executorID shardIDs = false ↔ state.shardAssignments.lookup executorID = none ∨
      ∃ record, state.shardAssignments.lookup executorID = some record ∧
        ¬SameShards record.assignedShards (readyShards shardIDs) := by
  rw [← Bool.not_eq_true, isUnchanged_iff_sameShards]
  cases state.shardAssignments.lookup executorID with
  | none => simp
  | some record => simp

theorem keys_eq_nil_of_not_stores {state : NamespaceState F} {executorID : String} {record : AssignedState}
    (hlookup : state.shardAssignments.lookup executorID = some record)
    (h : ¬∃ shardID, state.Stores executorID shardID) : record.assignedShards.keys = [] := by
  refine List.eq_nil_iff_forall_not_mem.mpr fun shardID hmem => h ⟨shardID, ?_⟩
  exact NamespaceState.stores_iff.mpr ⟨record, hlookup, AList.mem_keys.mpr hmem⟩

/-- The sets that a rebalance gets from its snapshot: assignments of the
assignable executors, the executors that have to give up their shards, and the
stale ones, which are deleted. -/
structure Sets (state : NamespaceState F) (stale : Map String Int) (current : ListMap String String)
    (unassign : Map String Int) : Prop where
  current_iff : ∀ executorID, executorID ∈ current ↔ state.Assignable stale executorID
  unassign_iff : ∀ executorID, executorID ∈ unassign ↔
    (∃ shardID, state.Stores executorID shardID) ∧ ¬state.Assignable stale executorID ∧ executorID ∉ stale
  unassign_revision : ∀ {executorID revision}, unassign.lookup executorID = some revision →
    revision = (state.assigned executorID).modRevision
  stale_revision : ∀ {executorID revision}, stale.lookup executorID = some revision →
    revision = (state.assigned executorID).modRevision

namespace Sets

variable {state : NamespaceState F} {stale : Map String Int} {current : ListMap String String}
  {unassign : Map String Int} {owners : Map String String} {now : Time} {executorID : String}
  (h : Sets state stale current unassign)

include h

theorem lookup_entries {entry : AssignedState} :
    (buildNewAssignmentsState state current unassign owners now).1.lookup executorID = some entry ↔
      (∃ shardIDs, current.lookup executorID = some shardIDs ∧
        entry = newAssignedState state owners now executorID shardIDs) ∨
      ∃ revision, unassign.lookup executorID = some revision ∧ entry = ⟨∅, ∅, now, revision⟩ :=
  lookup_buildNewAssignmentsState fun e hcurrent hunassign =>
    ((h.unassign_iff e).mp hunassign).2.1 ((h.current_iff e).mp hcurrent)

/-- An executor with new assignments is changed unless it is unchanged. -/
theorem mem_changed_of_current {shardIDs : List String} (hcurrent : current.lookup executorID = some shardIDs) :
    executorID ∈ (buildNewAssignmentsState state current unassign owners now).2 ↔
      isUnchanged state executorID shardIDs = false := by
  have hassignable := (h.current_iff _).mp (Map.mem_iff_exists_lookup.mpr ⟨_, hcurrent⟩)
  rw [mem_changed_iff, hcurrent]
  constructor
  · rintro (⟨ids, hids, hchanged⟩ | hunassign)
    · cases hids
      exact hchanged
    · exact absurd hassignable ((h.unassign_iff _).mp hunassign).2.1
  · exact fun hchanged => .inl ⟨shardIDs, rfl, hchanged⟩

/-- The marks are exact: giving up shards is a change of a stored record. -/
theorem changed_iff {entry : AssignedState}
    (hlookup : (buildNewAssignmentsState state current unassign owners now).1.lookup executorID = some entry) :
    executorID ∈ (buildNewAssignmentsState state current unassign owners now).2 ↔
      state.shardAssignments.lookup executorID = none ∨
        ∃ record, state.shardAssignments.lookup executorID = some record ∧
          ¬SameShards record.assignedShards entry.assignedShards := by
  rcases h.lookup_entries.mp hlookup with ⟨shardIDs, hcurrent, rfl⟩ | ⟨revision, hrevision, rfl⟩
  · rw [h.mem_changed_of_current hcurrent]
    exact isUnchanged_eq_false_iff
  · have hunassign := Map.mem_iff_exists_lookup.mpr ⟨_, hrevision⟩
    obtain ⟨shardID, hstores⟩ := ((h.unassign_iff _).mp hunassign).1
    obtain ⟨record, hrecord, hmem⟩ := NamespaceState.stores_iff.mp hstores
    refine iff_of_true ((mem_changed_iff owners now).mpr (.inr hunassign)) (.inr ⟨record, hrecord, fun hsame => ?_⟩)
    exact absurd ((hsame.mem_iff shardID).mp hmem) (AList.notMem_empty shardID)

theorem modRevision_entry {entry : AssignedState}
    (hlookup : (buildNewAssignmentsState state current unassign owners now).1.lookup executorID = some entry) :
    entry.modRevision = ((state.shardAssignments.lookup executorID).map AssignedState.modRevision).getD 0 := by
  have hassigned : (state.assigned executorID).modRevision =
      ((state.shardAssignments.lookup executorID).map AssignedState.modRevision).getD 0 := by
    rw [NamespaceState.assigned]
    cases state.shardAssignments.lookup executorID with
    | none => rfl
    | some record => rfl
  rw [← hassigned]
  rcases h.lookup_entries.mp hlookup with ⟨shardIDs, hcurrent, rfl⟩ | ⟨revision, hrevision, rfl⟩
  · rfl
  · exact h.unassign_revision hrevision

/-- Nobody's record is forgotten: what is neither rewritten nor deleted holds
no shards. -/
theorem covers {record : AssignedState} (hrecord : state.shardAssignments.lookup executorID = some record) :
    executorID ∈ (buildNewAssignmentsState state current unassign owners now).1 ∨
      stale.lookup executorID = some record.modRevision ∨
      executorID ∉ stale ∧ ¬state.Assignable stale executorID ∧ record.assignedShards.keys = [] := by
  by_cases hstale : executorID ∈ stale
  · obtain ⟨revision, hrevision⟩ := Map.mem_iff_exists_lookup.mp hstale
    have heq := h.stale_revision hrevision
    rw [NamespaceState.assigned, hrecord, Option.getD_some] at heq
    exact .inr (.inl (heq ▸ hrevision))
  by_cases hassignable : state.Assignable stale executorID
  · exact .inl (mem_buildNewAssignmentsState.mpr (.inl ((h.current_iff _).mpr hassignable)))
  by_cases hstores : ∃ shardID, state.Stores executorID shardID
  · exact .inl (mem_buildNewAssignmentsState.mpr (.inr ((h.unassign_iff _).mpr ⟨hstores, hassignable, hstale⟩)))
  · exact .inr (.inr ⟨hstale, hassignable, keys_eq_nil_of_not_stores hrecord hstores⟩)

theorem not_stale (hmem : executorID ∈ (buildNewAssignmentsState state current unassign owners now).1) :
    executorID ∉ stale := by
  rcases mem_buildNewAssignmentsState.mp hmem with hcurrent | hunassign
  · obtain ⟨heartbeat, -, -, -, hstale⟩ := NamespaceState.assignable_iff.mp ((h.current_iff _).mp hcurrent)
    exact hstale
  · exact ((h.unassign_iff _).mp hunassign).2.2

theorem assigns {shardIDs : List String} (hcurrent : current.lookup executorID = some shardIDs)
    (owners : Map String String) (now : Time) :
    ∃ record, applied (requestOf state stale (buildNewAssignmentsState state current unassign owners now)) state
        executorID = some record ∧ SameShards record.assignedShards (readyShards shardIDs) := by
  have hentry : (buildNewAssignmentsState state current unassign owners now).1.lookup executorID =
      some (newAssignedState state owners now executorID shardIDs) := h.lookup_entries.mpr (.inl ⟨shardIDs, hcurrent, rfl⟩)
  have hchanged : executorID ∈ (buildNewAssignmentsState state current unassign owners now).2 ↔ _ :=
    h.mem_changed_of_current hcurrent
  cases hunchanged : isUnchanged state executorID shardIDs with
  | false => exact ⟨_, applied_of_written hentry (isWritten_requestOf.mpr (hchanged.mpr hunchanged)), fun _ => rfl⟩
  | true =>
    have hnot : isWritten (requestOf state stale (buildNewAssignmentsState state current unassign owners now))
        executorID = false := by
      rw [← Bool.not_eq_true, isWritten_requestOf, hchanged, hunchanged]
      exact Bool.noConfusion
    have hstale := h.not_stale (Map.mem_iff_exists_lookup.mpr ⟨_, hentry⟩)
    obtain ⟨record, hrecord, hsame⟩ := isUnchanged_iff_sameShards.mp hunchanged
    refine ⟨record, ?_, hsame⟩
    rw [applied_of_unwritten fun _ => hnot, ← hrecord]
    exact if_neg hstale

theorem clears {record : AssignedState} (hcurrent : executorID ∉ current)
    (happlied : applied (requestOf state stale (buildNewAssignmentsState state current unassign owners now)) state
      executorID = some record) : record.assignedShards.keys = [] := by
  by_cases hunassign : executorID ∈ unassign
  · obtain ⟨revision, hrevision⟩ := Map.mem_iff_exists_lookup.mp hunassign
    have hentry : (buildNewAssignmentsState state current unassign owners now).1.lookup executorID =
        some ⟨∅, ∅, now, revision⟩ := h.lookup_entries.mpr (.inr ⟨revision, hrevision, rfl⟩)
    have hwritten : isWritten (requestOf state stale (buildNewAssignmentsState state current unassign owners now))
        executorID = true := isWritten_requestOf.mpr ((mem_changed_iff owners now).mpr (.inr hunassign))
    rw [applied_of_written hentry hwritten] at happlied
    cases happlied
    rfl
  · have hnot : executorID ∉ (buildNewAssignmentsState state current unassign owners now).1 := by
      rw [mem_buildNewAssignmentsState, not_or]
      exact ⟨hcurrent, hunassign⟩
    rw [applied_of_unwritten fun hmem => absurd hmem hnot] at happlied
    have hcases : executorID ∉ stale ∧ state.shardAssignments.lookup executorID = some record := by
      split at happlied
      · cases happlied
      · rename_i hstale
        exact ⟨hstale, happlied⟩
    rcases h.covers hcases.2 with hmem | hlookup | ⟨-, -, hnil⟩
    · exact absurd hmem hnot
    · exact absurd (Map.mem_iff_exists_lookup.mpr ⟨_, hlookup⟩) hcases.1
    · exact hnil

/-- What is built from such sets is the difference to the snapshot. -/
theorem difference (owners : Map String String) (now : Time) :
    Difference state stale current (buildNewAssignmentsState state current unassign owners now) where
  changed_entries := by
    intro executorID hmem
    rw [mem_changed_iff] at hmem
    rw [mem_buildNewAssignmentsState]
    exact hmem.imp_left fun ⟨shardIDs, hlookup, _⟩ => Map.mem_iff_exists_lookup.mpr ⟨shardIDs, hlookup⟩
  changed_iff := h.changed_iff
  modRevision := h.modRevision_entry
  lastUpdated := by
    intro executorID entry record hlookup hchanged hrecord
    rcases h.lookup_entries.mp hlookup with ⟨shardIDs, hcurrent, rfl⟩ | ⟨revision, hrevision, rfl⟩
    · rw [h.mem_changed_of_current hcurrent, Bool.not_eq_false] at hchanged
      rw [newAssignedState, if_pos hchanged, NamespaceState.assigned, hrecord, Option.getD_some]
    · exact absurd ((mem_changed_iff owners now).mpr (.inr (Map.mem_iff_exists_lookup.mpr ⟨_, hrevision⟩))) hchanged
  not_stale := fun _ => h.not_stale
  covers := h.covers
  assigns := fun hcurrent => h.assigns hcurrent owners now
  clears := h.clears

end Sets

/-- For every snapshot and all assignments of the assignable executors, a
rebalance asks for exactly the difference. -/
theorem buildNewAssignmentsState_difference (state : NamespaceState F) (heartbeatTTL : Duration) (now : Time)
    (current : ListMap String String) (owners : Map String String) (assignmentTime : Time)
    (hkeys : ∀ executorID, executorID ∈ current ↔
      executorID ∈ state.assignableExecutorIDs (identifyStaleExecutors heartbeatTTL now state)) :
    Difference state (identifyStaleExecutors heartbeatTTL now state) current
      (buildNewAssignmentsState state current
        (findExecutorsToUnassign state
          (Map.ofList ((state.assignableExecutorIDs (identifyStaleExecutors heartbeatTTL now state)).map (·, ())))
          (identifyStaleExecutors heartbeatTTL now state)) owners assignmentTime) := by
  have hassignable : ∀ executorID, executorID ∈ (Map.ofList ((state.assignableExecutorIDs
      (identifyStaleExecutors heartbeatTTL now state)).map (·, ())) : KeySet String) ↔
        state.Assignable (identifyStaleExecutors heartbeatTTL now state) executorID := by
    intro executorID
    rw [← NamespaceState.mem_assignableExecutorIDs, Map.mem_ofList]
    simp
  have hsets : Sets state (identifyStaleExecutors heartbeatTTL now state) current
      (findExecutorsToUnassign state
        (Map.ofList ((state.assignableExecutorIDs (identifyStaleExecutors heartbeatTTL now state)).map (·, ())))
        (identifyStaleExecutors heartbeatTTL now state)) := by
    refine ⟨fun e => (hkeys e).trans NamespaceState.mem_assignableExecutorIDs, fun e => ?_,
      lookup_findExecutorsToUnassign, fun hlookup => (lookup_identifyStaleExecutors hlookup).2⟩
    rw [mem_findExecutorsToUnassign, hassignable]
  exact hsets.difference owners assignmentTime

/-- Executors in all roles: `a` and `b` are assignable, `c` and `d` drain, the
second of them without shards, and `e` is stale. -/
def mixed : NamespaceState ExactFloat :=
  .ofStored [("a", ⟨90, .active, ∅, ∅, none⟩), ("b", ⟨90, .active, ∅, ∅, none⟩), ("c", ⟨90, .draining, ∅, ∅, none⟩),
    ("d", ⟨90, .draining, ∅, ∅, none⟩), ("e", ⟨10, .active, ∅, ∅, none⟩)]
    [("a", ["1"]), ("c", ["2"]), ("d", []), ("e", ["3"])]

def reassigned : ListMap String String := Map.ofList [("a", ["1"]), ("b", ["2", "3"])]

/-- The unchanged `a` is not marked. -/
theorem mixed_difference :
    (identifyStaleExecutors 50 100 mixed).keys = ["e"] ∧
    (buildNewAssignmentsState mixed reassigned (Map.ofList [("c", 1)]) (mixed.shardOwners .stored) 100).2.keys =
      ["c", "b"] ∧
    (∀ executorID, executorID ∈ reassigned ↔
      executorID ∈ mixed.assignableExecutorIDs (identifyStaleExecutors 50 100 mixed)) ∧
    Difference mixed (identifyStaleExecutors 50 100 mixed) reassigned
      (buildNewAssignmentsState mixed reassigned
        (findExecutorsToUnassign mixed
          (Map.ofList ((mixed.assignableExecutorIDs (identifyStaleExecutors 50 100 mixed)).map (·, ())))
          (identifyStaleExecutors 50 100 mixed)) (mixed.shardOwners .stored) 100) := by
  have hassignable : mixed.assignableExecutorIDs (identifyStaleExecutors 50 100 mixed) = ["a", "b"] := by
    decide +kernel
  have hkeys : ∀ executorID, executorID ∈ reassigned ↔
      executorID ∈ mixed.assignableExecutorIDs (identifyStaleExecutors 50 100 mixed) := by
    intro executorID
    rw [hassignable, reassigned, Map.mem_ofList]
    rfl
  exact ⟨by decide +kernel, by decide +kernel, hkeys,
    buildNewAssignmentsState_difference mixed 50 100 reassigned (mixed.shardOwners .stored) 100 hkeys⟩

end process
