import ShardManager.ExecutorStore.NamespaceWatch

open golang etcd etcdkeys store common executorstore

namespace cache

/-- An executor as the cache hands it out. -/
structure ShardOwner where
  executorID : String
  metadata : Map String String

/-- The maps of the cache. The source keys `executorToShards` by the pointers
in `shardOwners`, of which there is one for each executor. -/
structure ShardCache where
  shardToExecutor : Map String ShardOwner
  shardOwners : Map String ShardOwner
  executorToShards : Map String (ShardOwner × List String)
  executorRevision : Map String Int
  drainedShards : KeySet String
  lastRevision : Int

/-- A cache that has not loaded anything. -/
def newShardCache : ShardCache := ⟨∅, ∅, ∅, ∅, ∅, 0⟩

/-- The cached shards of an executor, in the order its record was ranged over. -/
def shardIDs (order : RangeOrder) (executorID : String) (assigned : AssignedState) : List String :=
  order.rangeKeys s!"applyNamespaceState/{executorID}" assigned.assignedShards

/-- The maps built from one read. -/
def fromNamespaceState (order : RangeOrder) (state : AssignmentState) : ShardCache where
  -- A shard of several executors stays with the one visited last.
  shardToExecutor := Map.ofList <| (order.range "applyNamespaceState" state.executorMetadata).flatMap
    fun (executorID, metadata) =>
      match state.shardAssignments.lookup executorID with
      | some assigned => (shardIDs order executorID assigned).map fun shardID => (shardID, ⟨executorID, metadata⟩)
      | none => []
  shardOwners := state.executorMetadata.filterMapEntries fun executorID metadata => some ⟨executorID, metadata⟩
  executorToShards := state.executorMetadata.filterMapEntries fun executorID metadata =>
    (state.shardAssignments.lookup executorID).map fun assigned =>
      (⟨executorID, metadata⟩, shardIDs order executorID assigned)
  executorRevision := state.executorMetadata.filterMapEntries fun executorID _ =>
    (state.shardAssignments.lookup executorID).map fun assigned => assigned.modRevision
  drainedShards := state.drainedShards
  lastRevision := state.revision

/-- Replaces all maps at once, unless they are not newer. Tells whether it did. -/
def replaceNamespaceState (next c : ShardCache) : Bool × ShardCache :=
  if next.lastRevision ≤ c.lastRevision then (false, c) else (true, next)

def applyNamespaceState (order : RangeOrder) (state : AssignmentState) (c : ShardCache) : Bool × ShardCache :=
  replaceNamespaceState (fromNamespaceState order state) c

theorem replaceNamespaceState_cases {next c c' : ShardCache} {updated : Bool}
    (h : replaceNamespaceState next c = (updated, c')) :
    (updated = false ∧ c' = c ∧ next.lastRevision ≤ c.lastRevision) ∨
      updated = true ∧ c' = next ∧ c.lastRevision < next.lastRevision := by
  unfold replaceNamespaceState at h
  split at h
  · cases h
    exact .inl ⟨rfl, rfl, by assumption⟩
  · rename_i hlt
    cases h
    exact .inr ⟨rfl, rfl, not_le.mp hlt⟩

theorem lookup_executorToShards {order : RangeOrder} {state : AssignmentState} {executorID : String}
    {owner : ShardOwner} {shards : List String} :
    (fromNamespaceState order state).executorToShards.lookup executorID = some (owner, shards) ↔
      ∃ metadata assigned, state.executorMetadata.lookup executorID = some metadata ∧
        state.shardAssignments.lookup executorID = some assigned ∧ owner = ⟨executorID, metadata⟩ ∧
        shards = shardIDs order executorID assigned := by
  rw [fromNamespaceState, Map.lookup_filterMapEntries, Option.bind_eq_some_iff]
  constructor
  · rintro ⟨metadata, hmetadata, h⟩
    obtain ⟨assigned, hassigned, heq⟩ := Option.map_eq_some_iff.mp h
    cases heq
    exact ⟨metadata, assigned, hmetadata, hassigned, rfl, rfl⟩
  · rintro ⟨metadata, assigned, hmetadata, hassigned, rfl, rfl⟩
    exact ⟨metadata, hmetadata, by rw [hassigned]; rfl⟩

end cache

namespace handler

open cache

/-- The shards of one executor, as sent to spectators. -/
structure ExecutorShardAssignment where
  executorID : String
  assignedShards : List String
  metadata : Map String String

structure WatchNamespaceStateResponse where
  executors : List ExecutorShardAssignment
  drainedShardKeys : List String
  assignmentRevision : Int := 0

def toTypesExecutorShardAssignments (order : RangeOrder) (executorToShards : Map String (ShardOwner × List String)) :
    List ExecutorShardAssignment :=
  (order.range "toTypesExecutorShardAssignments" executorToShards).map fun (_, owner, shards) =>
    ⟨owner.executorID, shards, owner.metadata⟩

/-- What is sent for the snapshot that `GetShardAssignments` takes. The revision
is left at zero. -/
def watchResponse (order : RangeOrder) (c : ShardCache) : WatchNamespaceStateResponse where
  executors := toTypesExecutorShardAssignments order c.executorToShards
  drainedShardKeys := (c.drainedShards.toList.map Prod.fst).insertionSort (· ≤ ·)

open etcdtypes (Value Encoding)

variable {F : Type} {pre ns : String} {s s' : Store (Value F)} {response : WatchNamespaceStateResponse}

/-- The response describes a store: it lists exactly the executors with an
assignment record, each once, with their shards and metadata, and exactly the
drained shards. -/
structure Shows [Encoding F] (pre ns : String) (s : Store (Value F)) (response : WatchNamespaceStateResponse) :
    Prop where
  executors : ∀ executorID, (∃ entry ∈ response.executors, entry.executorID = executorID) ↔
    ∃ state, RecordAt pre ns s executorID state
  once : (response.executors.map (·.executorID)).Nodup
  shards : ∀ entry ∈ response.executors, ∀ state, RecordAt pre ns s entry.executorID state →
    ∀ shardID, shardID ∈ entry.assignedShards ↔ shardID ∈ state.assignedShards
  metadata : ∀ entry ∈ response.executors, ∀ name value,
    entry.metadata.lookup name = some value ↔ MetadataAt pre ns s entry.executorID name value
  drained : ∀ shardID, shardID ∈ response.drainedShardKeys ↔ DrainedAt pre ns s shardID

variable [Encoding F]

theorem mem_watchResponse_executors {order order' : RangeOrder} {state : AssignmentState}
    {entry : ExecutorShardAssignment} :
    entry ∈ (watchResponse order' (fromNamespaceState order state)).executors ↔
      ∃ assigned, state.executorMetadata.lookup entry.executorID = some entry.metadata ∧
        state.shardAssignments.lookup entry.executorID = some assigned ∧
        entry.assignedShards = shardIDs order entry.executorID assigned := by
  simp only [watchResponse, toTypesExecutorShardAssignments, List.mem_map, Prod.exists, RangeOrder.mem_range_iff,
    lookup_executorToShards]
  constructor
  · rintro ⟨executorID, owner, shards, ⟨metadata, assigned, hmetadata, hassigned, rfl, rfl⟩, rfl⟩
    exact ⟨assigned, hmetadata, hassigned, rfl⟩
  · rintro ⟨assigned, hmetadata, hassigned, hshards⟩
    exact ⟨entry.executorID, _, _, ⟨_, assigned, hmetadata, hassigned, rfl, hshards.symm ▸ rfl⟩, rfl⟩

/-- The response made from a read describes the store that was read. -/
theorem shows_watchResponse {order order' : RangeOrder} {state : AssignmentState} (hbare : NoBareKeys pre ns s)
    (h : Describes pre ns s state) : Shows pre ns s (watchResponse order' (fromNamespaceState order state)) := by
  refine ⟨?_, ?_, ?_, ?_, ?_⟩
  · intro executorID
    constructor
    · rintro ⟨entry, hentry, rfl⟩
      obtain ⟨assigned, -, hassigned, -⟩ := mem_watchResponse_executors.mp hentry
      exact ⟨assigned, (h.assignments _ _).mp hassigned⟩
    · rintro ⟨assigned, hrecord⟩
      have hassigned := (h.assignments _ _).mpr hrecord
      obtain ⟨metadata, hmetadata⟩ := Map.mem_iff_exists_lookup.mp
        (h.visible (Map.mem_iff_exists_lookup.mpr ⟨_, hassigned⟩))
      exact ⟨⟨executorID, shardIDs order executorID assigned, metadata⟩,
        mem_watchResponse_executors.mpr ⟨assigned, hmetadata, hassigned, rfl⟩, rfl⟩
  · have hkeys : (watchResponse order' (fromNamespaceState order state)).executors.map (·.executorID) =
        order'.rangeKeys "toTypesExecutorShardAssignments" (fromNamespaceState order state).executorToShards := by
      rw [watchResponse, toTypesExecutorShardAssignments, RangeOrder.rangeKeys, List.map_map]
      refine List.map_congr_left ?_
      rintro ⟨executorID, owner, shards⟩ hentry
      obtain ⟨metadata, assigned, -, -, rfl, -⟩ := lookup_executorToShards.mp (RangeOrder.mem_range_iff.mp hentry)
      rfl
    rw [hkeys]
    exact RangeOrder.nodup_rangeKeys ..
  · intro entry hentry assigned hrecord shardID
    obtain ⟨assigned', -, hassigned, hshards⟩ := mem_watchResponse_executors.mp hentry
    have heq := (h.assignments _ _).mpr hrecord
    rw [hassigned, Option.some.injEq] at heq
    rw [hshards, shardIDs, RangeOrder.mem_rangeKeys, heq]
  · intro entry hentry name value
    obtain ⟨assigned, hmetadata, -, -⟩ := mem_watchResponse_executors.mp hentry
    have hdescribed := h.metadata hbare entry.executorID name value
    rwa [metadataOf, hmetadata] at hdescribed
  · intro shardID
    rw [← h.drained, watchResponse, (List.perm_insertionSort _ _).mem_iff, Map.map_fst_toList, AList.mem_keys]
    rfl

/-- A response keeps describing a store as long as what it shows is the same. -/
theorem Shows.of_sameView (h : Shows pre ns s response) (hsame : SameView pre ns s s') :
    Shows pre ns s' response := by
  refine ⟨?_, h.once, ?_, ?_, ?_⟩
  · intro executorID
    rw [h.executors]
    constructor
    · rintro ⟨state, hrecord⟩
      obtain ⟨state', hrecord', -⟩ := hsame.recordAt hrecord
      exact ⟨state', hrecord'⟩
    · rintro ⟨state', hrecord'⟩
      obtain ⟨state, hrecord, -⟩ := hsame.symm.recordAt hrecord'
      exact ⟨state, hrecord⟩
  · intro entry hentry state' hrecord' shardID
    obtain ⟨state, hrecord, hshards⟩ := hsame.symm.recordAt hrecord'
    rw [h.shards entry hentry state hrecord, hshards]
  · intro entry hentry name value
    obtain ⟨state, hrecord⟩ := (h.executors entry.executorID).mp ⟨entry, hentry, rfl⟩
    rw [h.metadata entry hentry, hsame.metadataAt hrecord]
  · intro shardID
    rw [h.drained, hsame.drainedAt]

end handler
