import ShardManager.Cache.ShardCache
import ShardManager.Mapper.ShardDistributor

open golang store cache handler

namespace proto

/-- The response with the pointers that the mappers work on. -/
def written (t : WatchNamespaceStateResponse) : mapper.WatchNamespaceStateResponse String where
  executors := some (t.executors.map fun executor => some
    ⟨executor.executorID, some (executor.assignedShards.map fun shardKey => some ⟨shardKey⟩), some executor.metadata⟩)
  drainedShardKeys := some t.drainedShardKeys
  assignmentRevision := t.assignmentRevision

/-- What a spectator reads from a response: nil slices and maps are empty to it. -/
def read (t : mapper.WatchNamespaceStateResponse String) : WatchNamespaceStateResponse where
  executors := (t.executors.getD []).map fun executor =>
    ⟨(executor.getD default).executorID,
      ((executor.getD default).assignedShards.getD []).map fun shard => (shard.getD default).shardKey,
      (executor.getD default).metadata.getD ∅⟩
  drainedShardKeys := t.drainedShardKeys.getD []
  assignmentRevision := t.assignmentRevision

/-- A response is mapped to the wire types and back on its way to a spectator. -/
def delivered (t : WatchNamespaceStateResponse) : Option WatchNamespaceStateResponse :=
  (mapper.toShardDistributorWatchNamespaceStateResponse
    (mapper.fromShardDistributorWatchNamespaceStateResponse (some (written t)))).map read

/-- Nothing is lost on the wire. -/
theorem delivered_eq (t : WatchNamespaceStateResponse) : delivered t = some t := by
  simp [delivered, written, read, mapper.toShardDistributorWatchNamespaceStateResponse,
    mapper.fromShardDistributorWatchNamespaceStateResponse, mapper.toExecutorShardAssignment,
    mapper.fromExecutorShardAssignment, Slice.getD_map, Slice.getD_appended, Function.comp_def]

end proto

namespace spectatorclient

structure ShardOwner where
  executorID : String
  metadata : Map String String

/-- What the spectator knows of its namespace. -/
structure View where
  shardToOwner : Map String ShardOwner
  drainedShards : KeySet String

/-- A response replaces everything the spectator knew. -/
def handleResponse (response : WatchNamespaceStateResponse) : View where
  -- A shard of several executors stays with the one listed last.
  shardToOwner := Map.ofList (response.executors.flatMap fun executor =>
    executor.assignedShards.map fun shardKey => (shardKey, ⟨executor.executorID, executor.metadata⟩))
  drainedShards := Map.ofList (response.drainedShardKeys.map fun shardKey => (shardKey, ()))

/-- What is known about a shard without asking anyone else. -/
inductive Decision where
  | drained
  | owner (owner : ShardOwner)
  | miss

/-- `GetShardOwner` up to its RPC. -/
def View.decision (view : View) (shardKey : String) : Decision :=
  if shardKey ∈ view.drainedShards then .drained
  else
    match view.shardToOwner.lookup shardKey with
    | some owner => .owner owner
    | none => .miss

end spectatorclient

namespace cache

open spectatorclient (Decision)

/-- `GetShardOwner` on the maps of the cache, up to a refresh. -/
def ShardCache.decision (c : ShardCache) (shardKey : String) : Decision :=
  if shardKey ∈ c.drainedShards then .drained
  else
    match c.shardToExecutor.lookup shardKey with
    | some owner => .owner ⟨owner.executorID, owner.metadata⟩
    | none => .miss

end cache

namespace spectatorclient

/-- Each shard is assigned to at most one executor. -/
def Exclusive (state : AssignmentState) : Prop :=
  ∀ executorID executorID' assigned assigned' shardID, state.shardAssignments.lookup executorID = some assigned →
    state.shardAssignments.lookup executorID' = some assigned' → shardID ∈ assigned.assignedShards →
    shardID ∈ assigned'.assignedShards → executorID = executorID'

/-- The executor owns the shard according to a read. -/
def OwnedBy (state : AssignmentState) (shardID executorID : String) (metadata : Map String String) : Prop :=
  ∃ assigned, state.executorMetadata.lookup executorID = some metadata ∧
    state.shardAssignments.lookup executorID = some assigned ∧ shardID ∈ assigned.assignedShards

section Owners

variable {order order' : RangeOrder} {state : AssignmentState} {shardID : String}

theorem OwnedBy.unique {executorID executorID' : String} {metadata metadata' : Map String String}
    (hexclusive : Exclusive state) (h : OwnedBy state shardID executorID metadata)
    (h' : OwnedBy state shardID executorID' metadata') : executorID = executorID' ∧ metadata = metadata' := by
  obtain ⟨assigned, hmetadata, hassigned, hshard⟩ := h
  obtain ⟨assigned', hmetadata', hassigned', hshard'⟩ := h'
  obtain rfl := hexclusive _ _ _ _ _ hassigned hassigned' hshard hshard'
  rw [hmetadata] at hmetadata'
  exact ⟨rfl, Option.some.inj hmetadata'⟩

/-- Assigning to each shard a value that tells its owner. -/
theorem lookup_ofList_owned {β : Type} {l : List (String × β)} (tells : β → String × Map String String)
    (hinjective : Function.Injective tells) (hexclusive : Exclusive state)
    (hmem : ∀ {owner : β}, (shardID, owner) ∈ l ↔ OwnedBy state shardID (tells owner).1 (tells owner).2) {owner : β} :
    (Map.ofList l).lookup shardID = some owner ↔ OwnedBy state shardID (tells owner).1 (tells owner).2 := by
  refine (Map.lookup_ofList_iff_of_unique fun h h' => hinjective ?_).trans hmem
  obtain ⟨hid, hmetadata⟩ := (hmem.mp h).unique hexclusive (hmem.mp h')
  exact Prod.ext hid hmetadata

/-- The entries of the shards of one executor. -/
def executorEntries (order : RangeOrder) (state : AssignmentState) (executorID : String) (metadata : Map String String) :
    List (String × cache.ShardOwner) :=
  match state.shardAssignments.lookup executorID with
  | some assigned => (shardIDs order executorID assigned).map fun shardID => (shardID, ⟨executorID, metadata⟩)
  | none => []

theorem mem_executorEntries {executorID : String} {metadata : Map String String} {owner : cache.ShardOwner} :
    (shardID, owner) ∈ executorEntries order state executorID metadata ↔
      owner = ⟨executorID, metadata⟩ ∧
        ∃ assigned, state.shardAssignments.lookup executorID = some assigned ∧ shardID ∈ assigned.assignedShards := by
  unfold executorEntries
  split
  · rename_i assigned hassigned
    simp [hassigned, shardIDs, and_comm, eq_comm]
  · rename_i hnone
    simp [hnone]

/-- The cache maps a shard to its owner. -/
theorem lookup_shardToExecutor (hexclusive : Exclusive state) {owner : cache.ShardOwner} :
    (fromNamespaceState order state).shardToExecutor.lookup shardID = some owner ↔
      OwnedBy state shardID owner.executorID owner.metadata := by
  have hmem : ∀ {owner : cache.ShardOwner}, (shardID, owner) ∈
      ((order.range "applyNamespaceState" state.executorMetadata).flatMap fun entry =>
        executorEntries order state entry.1 entry.2) ↔ OwnedBy state shardID owner.executorID owner.metadata := by
    intro owner
    simp only [List.mem_flatMap, Prod.exists, RangeOrder.mem_range_iff, mem_executorEntries]
    constructor
    · rintro ⟨executorID, metadata, hmetadata, rfl, assigned, hassigned, hshard⟩
      exact ⟨assigned, hmetadata, hassigned, hshard⟩
    · rintro ⟨assigned, hmetadata, hassigned, hshard⟩
      exact ⟨owner.executorID, owner.metadata, hmetadata, rfl, assigned, hassigned, hshard⟩
  refine lookup_ofList_owned (fun owner : cache.ShardOwner => (owner.executorID, owner.metadata)) ?_ hexclusive hmem
  rintro ⟨_, _⟩ ⟨_, _⟩ ⟨⟩
  rfl

/-- The spectator maps a shard to the same owner. -/
theorem lookup_shardToOwner (hexclusive : Exclusive state) {owner : ShardOwner} :
    (handleResponse (watchResponse order' (fromNamespaceState order state))).shardToOwner.lookup shardID = some owner ↔
      OwnedBy state shardID owner.executorID owner.metadata := by
  have hmem : ∀ {owner : ShardOwner}, (shardID, owner) ∈
      ((watchResponse order' (fromNamespaceState order state)).executors.flatMap fun executor =>
        executor.assignedShards.map fun shardKey =>
          (shardKey, (⟨executor.executorID, executor.metadata⟩ : ShardOwner))) ↔
      OwnedBy state shardID owner.executorID owner.metadata := by
    intro owner
    rw [List.mem_flatMap]
    constructor
    · rintro ⟨entry, hentry, hmem⟩
      obtain ⟨assigned, hmetadata, hassigned, hshards⟩ := mem_watchResponse_executors.mp hentry
      obtain ⟨shard, hshard, heq⟩ := List.mem_map.mp hmem
      cases heq
      rw [hshards] at hshard
      exact ⟨assigned, hmetadata, hassigned, RangeOrder.mem_rangeKeys.mp hshard⟩
    · rintro ⟨assigned, hmetadata, hassigned, hshard⟩
      refine ⟨⟨owner.executorID, shardIDs order owner.executorID assigned, owner.metadata⟩, ?_, ?_⟩
      · exact mem_watchResponse_executors.mpr ⟨assigned, hmetadata, hassigned, rfl⟩
      · exact List.mem_map.mpr ⟨shardID, RangeOrder.mem_rangeKeys.mpr hshard, rfl⟩
  refine lookup_ofList_owned (fun owner : ShardOwner => (owner.executorID, owner.metadata)) ?_ hexclusive hmem
  rintro ⟨_, _⟩ ⟨_, _⟩ ⟨⟩
  rfl

/-- Both map every shard alike. -/
theorem lookup_shardToOwner_eq (hexclusive : Exclusive state) :
    (handleResponse (watchResponse order' (fromNamespaceState order state))).shardToOwner.lookup shardID =
      ((fromNamespaceState order state).shardToExecutor.lookup shardID).map fun owner =>
        ⟨owner.executorID, owner.metadata⟩ := by
  refine Option.ext fun owner => ?_
  rw [lookup_shardToOwner hexclusive, Option.map_eq_some_iff]
  constructor
  · intro howned
    exact ⟨⟨owner.executorID, owner.metadata⟩, (lookup_shardToExecutor hexclusive).mpr howned, rfl⟩
  · rintro ⟨cached, hcached, rfl⟩
    exact (lookup_shardToExecutor hexclusive).mp hcached

/-- The shards listed for an executor are those that are mapped to it. -/
theorem shardToExecutor_inverse (hexclusive : Exclusive state) {owner : cache.ShardOwner} :
    (fromNamespaceState order state).shardToExecutor.lookup shardID = some owner ↔
      ∃ executorID shards, (fromNamespaceState order state).executorToShards.lookup executorID = some (owner, shards) ∧
        shardID ∈ shards := by
  rw [lookup_shardToExecutor hexclusive]
  simp only [lookup_executorToShards]
  constructor
  · rintro ⟨assigned, hmetadata, hassigned, hshard⟩
    exact ⟨owner.executorID, _, ⟨owner.metadata, assigned, hmetadata, hassigned, rfl, rfl⟩,
      RangeOrder.mem_rangeKeys.mpr hshard⟩
  · rintro ⟨executorID, shards, ⟨metadata, assigned, hmetadata, hassigned, rfl, rfl⟩, hshard⟩
    exact ⟨assigned, hmetadata, hassigned, RangeOrder.mem_rangeKeys.mp hshard⟩

theorem mem_drainedShards :
    shardID ∈ (handleResponse (watchResponse order' (fromNamespaceState order state))).drainedShards ↔
    shardID ∈ state.drainedShards := by
  have hkeys : (state.drainedShards.toList.map Prod.fst).insertionSort (· ≤ ·) =
      (watchResponse order' (fromNamespaceState order state)).drainedShardKeys := rfl
  rw [handleResponse, Map.mem_ofList, List.map_map, ← hkeys]
  simp [Function.comp_def, Map.map_fst_toList, AList.mem_keys]

end Owners

/-- Once the cache has applied a read in which no shard is assigned twice, its
response tells a spectator, through the wire types and back, exactly what the
cache itself decides about every shard: drained, the same owner with the same
metadata, or nothing. The two maps of the cache are inverse to each other. -/
theorem decision_eq_of_applied (order order' : RangeOrder) (state : AssignmentState) (hexclusive : Exclusive state)
    (c c' : ShardCache) (happly : applyNamespaceState order state c = (true, c')) :
    (∃ response, proto.delivered (watchResponse order' c') = some response ∧
      ∀ shardKey, (handleResponse response).decision shardKey = c'.decision shardKey) ∧
    ∀ shardID owner, c'.shardToExecutor.lookup shardID = some owner ↔
      ∃ executorID shards, c'.executorToShards.lookup executorID = some (owner, shards) ∧ shardID ∈ shards := by
  obtain ⟨hskipped, -⟩ | ⟨-, rfl, -⟩ := replaceNamespaceState_cases happly
  · cases hskipped
  refine ⟨⟨_, proto.delivered_eq _, fun shardKey => ?_⟩, fun shardID owner => shardToExecutor_inverse hexclusive⟩
  unfold View.decision ShardCache.decision
  refine if_congr mem_drainedShards rfl ?_
  rw [lookup_shardToOwner_eq hexclusive]
  cases (fromNamespaceState order state).shardToExecutor.lookup shardKey <;> rfl

/-- Executor `a` has a shard and a drained shard, `b` has no assignment. -/
def oneDrained : AssignmentState where
  executorMetadata := Map.ofList [("a", Map.ofList [("zone", "z")]), ("b", ∅)]
  shardAssignments := Map.ofList [("a", ⟨Map.ofList [("1", some ⟨.ready⟩), ("2", some ⟨.ready⟩)], ∅, 0, 3⟩)]
  drainedShards := Map.ofList [("2", ())]
  revision := 5
  assignmentRevision := 4

theorem oneDrained_decision_eq : Exclusive oneDrained ∧ ∃ c',
    applyNamespaceState .stored oneDrained newShardCache = (true, c') ∧
    ∃ response, proto.delivered (watchResponse .stored c') = some response ∧
      ∀ shardKey, (handleResponse response).decision shardKey = c'.decision shardKey := by
  have hexclusive : Exclusive oneDrained := by
    intro executorID executorID' assigned assigned' shardID hassigned hassigned' _ _
    have hfst := List.mem_map_of_mem (f := Prod.fst) (Map.mem_of_lookup_ofList hassigned)
    have hfst' := List.mem_map_of_mem (f := Prod.fst) (Map.mem_of_lookup_ofList hassigned')
    rw [List.map_singleton, List.mem_singleton] at hfst hfst'
    exact hfst.trans hfst'.symm
  have happly : applyNamespaceState .stored oneDrained newShardCache =
    (true, fromNamespaceState .stored oneDrained) := rfl
  exact ⟨hexclusive, _, happly,
    (decision_eq_of_applied .stored .stored oneDrained hexclusive newShardCache _ happly).1⟩

end spectatorclient
