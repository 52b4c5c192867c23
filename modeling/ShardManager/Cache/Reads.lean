import ShardManager.Cache.ShardCache

open golang etcd etcdkeys store common executorstore

namespace reads

open etcdtypes (Value ParsedExecutorData Encoding)

variable {F : Type}

section Model

variable [Encoding F] (pre ns : String)

/-- What `GetState` makes of the ranges that its transaction returns. -/
def namespaceState (order : RangeOrder) (executorKVs drainedShardKVs drainedHostKVs : List (String × KeyValue (Value F)))
    (revision : Int) : Except String (NamespaceState F) := do
  let parsedData ← parseExecutorKVs pre ns executorKVs
  pure {
    executorMetadata := parsedData.filterMapValues fun executorData => some executorData.metadata
    shardAssignments := parsedData.filterMapValues (·.assignedState)
    drainedShards := parseDrainedShardKVs pre ns drainedShardKVs
    revision := revision
    assignmentRevision := 0
    executors := parsedData.filterMapValues fun executorData => some (heartbeatFromParsed executorData)
    shardStats := Map.ofList ((order.range "GetState" parsedData).flatMap fun (executorID, executorData) =>
      order.range s!"GetState/{executorID}" executorData.statistics)
    drainedHosts := parseDrainedHostKVs pre ns drainedHostKVs }

/-- What `GetAssignmentState` makes of the ranges that its transaction returns. -/
def assignmentState (executorKVs drainedShardKVs : List (String × KeyValue (Value F)))
    (revision assignmentRevision : Int) : Except String AssignmentState := do
  let (metadata, assignments) ← parseExecutorAssignmentKVs pre ns executorKVs
  pure {
    executorMetadata := metadata
    shardAssignments := assignments
    drainedShards := parseDrainedShardKVs pre ns drainedShardKVs
    revision := revision
    assignmentRevision := assignmentRevision }

theorem getState_eq (order : RangeOrder) (s : Store (Value F)) :
    getState pre ns order s = namespaceState pre ns order (s.range (.withPrefix (buildExecutorsPrefix pre ns)))
      (s.range (.withPrefix (buildDrainedShardsPrefix pre ns))) (s.range (.withPrefix (buildDrainedHostsPrefix pre ns)))
      s.revision := rfl

theorem getAssignmentState_eq (s : Store (Value F)) :
    getAssignmentState pre ns s = assignmentState pre ns (s.range (.withPrefix (buildExecutorsPrefix pre ns)))
      (s.range (.withPrefix (buildDrainedShardsPrefix pre ns))) s.revision
      (s.modRevision (buildAssignmentVersionKey pre ns)) := rfl

end Model

/-- The cheap read shows the executors and assignments of the full one. -/
structure SameAssignments (full : NamespaceState F) (cheap : AssignmentState) : Prop where
  metadata : ∀ executorID, cheap.executorMetadata.lookup executorID = full.executorMetadata.lookup executorID
  assignments : ∀ executorID, cheap.shardAssignments.lookup executorID = full.shardAssignments.lookup executorID
  drained : cheap.drainedShards = full.drainedShards

/-- The cache keeps every assignment of a read, with all its shards. -/
def CachesAll (order : RangeOrder) (state : AssignmentState) : Prop :=
  ∀ executorID assigned, state.shardAssignments.lookup executorID = some assigned →
    ∃ owner shards, (cache.fromNamespaceState order state).executorToShards.lookup executorID = some (owner, shards) ∧
      ∀ shardID, shardID ∈ shards ↔ shardID ∈ assigned.assignedShards

theorem cachesAll_of_visible {state : AssignmentState}
    (hvisible : ∀ executorID ∈ state.shardAssignments, executorID ∈ state.executorMetadata) (order : RangeOrder) :
    CachesAll order state := by
  intro executorID assigned hassigned
  obtain ⟨metadata, hmetadata⟩ := Map.mem_iff_exists_lookup.mp
    (hvisible executorID (Map.mem_iff_exists_lookup.mpr ⟨assigned, hassigned⟩))
  refine ⟨_, _, cache.lookup_executorToShards.mpr ⟨metadata, assigned, hmetadata, hassigned, rfl, rfl⟩, fun shardID => ?_⟩
  exact RangeOrder.mem_rangeKeys

/-- Whenever the full parse succeeds on the executor keys, so does the cheap
one, and both reads then show the same metadata and assignments. Every executor
with an assignment has a metadata entry, so the cache drops none. -/
theorem sameAssignments_of_parse [Encoding F] (pre ns : String)
    (executorKVs drainedShardKVs drainedHostKVs : List (String × KeyValue (Value F))) (order : RangeOrder)
    (revision assignmentRevision : Int) (data : Map String (ParsedExecutorData F))
    (hparse : parseExecutorKVs pre ns executorKVs = .ok data) :
    ∃ full cheap, namespaceState pre ns order executorKVs drainedShardKVs drainedHostKVs revision = .ok full ∧
      assignmentState pre ns executorKVs drainedShardKVs revision assignmentRevision = .ok cheap ∧
      SameAssignments full cheap ∧
      (∀ executorID ∈ cheap.shardAssignments, executorID ∈ cheap.executorMetadata) ∧
      ∀ order, CachesAll order cheap := by
  obtain ⟨⟨metadata, assignments⟩, hassignments, hagree⟩ := parseExecutorAssignmentKVs_of_parseExecutorKVs hparse
  have hvisible : ∀ executorID ∈ assignments, executorID ∈ metadata :=
    fun _ hmem => (executors_of_parse hassignments).1 _ hmem
  refine ⟨_, _, bind_eq_ok_iff.mpr ⟨data, hparse, rfl⟩, bind_eq_ok_iff.mpr ⟨_, hassignments, rfl⟩, ⟨?_, ?_, rfl⟩,
    hvisible, cachesAll_of_visible hvisible⟩
  · intro executorID
    rw [Map.lookup_filterMapValues]
    refine (hagree executorID).1.trans ?_
    cases data.lookup executorID <;> rfl
  · intro executorID
    rw [Map.lookup_filterMapValues]
    exact (hagree executorID).2

/-- An executor with a record and metadata, one that only sent a heartbeat, and
a key of a newer binary. -/
def mixedKVs : List (String × KeyValue (Value ExactFloat)) :=
  [(buildExecutorKey "s" "n" "a" .assignedState, ⟨.assignedState ⟨[("1", some ⟨.ready⟩)], [], 0⟩, 2⟩),
    (buildMetadataKey "s" "n" "a" "zone", ⟨.text "z", 3⟩),
    (buildExecutorKey "s" "n" "b" .heartbeat, ⟨.time 7, 4⟩),
    (buildExecutorKey "s" "n" "c" (.unknown "lease"), ⟨.text "", 5⟩)]

theorem mixedKVs_sameAssignments : ∃ data full cheap, parseExecutorKVs "s" "n" mixedKVs = .ok data ∧
    namespaceState "s" "n" .stored mixedKVs [] [] 5 = .ok full ∧ assignmentState "s" "n" mixedKVs [] 5 0 = .ok cheap ∧
    SameAssignments full cheap := by
  have hok : (parseExecutorKVs "s" "n" mixedKVs).isOk = true := by decide +kernel
  obtain ⟨data, hparse⟩ := exists_ok_of_isOk hok
  obtain ⟨full, cheap, hfull, hcheap, hsame, -⟩ := sameAssignments_of_parse "s" "n" mixedKVs [] [] .stored 5 0 data hparse
  exact ⟨data, full, cheap, hparse, hfull, hcheap, hsame⟩

end reads
