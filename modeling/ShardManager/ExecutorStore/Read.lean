import ShardManager.ExecutorStore.AssignShards
import ShardManager.ExecutorStore.Parse

open golang etcd etcdkeys store common

namespace executorstore

open etcdtypes (Value ParsedExecutorData Encoding)

variable {F : Type}

def heartbeatFromParsed (executorData : ParsedExecutorData F) : HeartbeatState F where
  lastHeartbeat := executorData.lastHeartbeat
  status := executorData.status
  reportedShards := executorData.reportedShards
  metadata := executorData.metadata
  hostMetadata := executorData.hostMetadata

section Model

variable (pre ns : String)

/-- The drained shards. Malformed keys are skipped. -/
def parseDrainedShardKVs (kvs : List (String × KeyValue (Value F))) : KeySet String :=
  Map.ofList (kvs.filterMap fun (key, _) =>
    match parseDrainedShardKey pre ns key with
    | .ok shardID => some (shardID, ())
    | .error _ => none)

/-- The drained hosts. A malformed value still drains the host of its key. -/
def parseDrainedHostKVs (kvs : List (String × KeyValue (Value F))) : Map String DrainedHost :=
  Map.ofList (kvs.filterMap fun (key, kv) =>
    match parseDrainedHostKey pre ns key with
    | .ok hostname => some (hostname,
        match kv.value with
        | .drainedHost parsed => { parsed with hostname := hostname }
        | _ => { hostname := hostname, drainedAt := 0, drainedBy := "", reason := "" })
    | .error _ => none)

variable [Encoding F]

/-- Reads the whole namespace in one transaction. -/
def getState (order : RangeOrder) (s : Store (Value F)) : Except String (NamespaceState F) := do
  let parsedData ← parseExecutorKVs pre ns (s.range (.withPrefix (buildExecutorsPrefix pre ns)))
  pure {
    executorMetadata := parsedData.filterMapValues fun executorData => some executorData.metadata
    shardAssignments := parsedData.filterMapValues (·.assignedState)
    drainedShards := parseDrainedShardKVs pre ns (s.range (.withPrefix (buildDrainedShardsPrefix pre ns)))
    revision := s.revision
    assignmentRevision := 0
    executors := parsedData.filterMapValues fun executorData => some (heartbeatFromParsed executorData)
    -- Statistics of one shard under several executors: the one visited last stays.
    shardStats := Map.ofList ((order.range "GetState" parsedData).flatMap fun (executorID, executorData) =>
      order.range s!"GetState/{executorID}" executorData.statistics)
    drainedHosts := parseDrainedHostKVs pre ns (s.range (.withPrefix (buildDrainedHostsPrefix pre ns))) }

/-- Reads what spectators see. The version key is missing until the first write. -/
def getAssignmentState (s : Store (Value F)) : Except String AssignmentState := do
  let (metadata, assignments) ←
    parseExecutorAssignmentKVs pre ns (s.range (.withPrefix (buildExecutorsPrefix pre ns)))
  pure {
    executorMetadata := metadata
    shardAssignments := assignments
    drainedShards := parseDrainedShardKVs pre ns (s.range (.withPrefix (buildDrainedShardsPrefix pre ns)))
    revision := s.revision
    assignmentRevision := s.modRevision (buildAssignmentVersionKey pre ns) }

end Model

section Spec

variable {pre ns : String} {s : Store (Value F)}

/-- The store holds a record of an executor, as reads return it. -/
def RecordAt (pre ns : String) (s : Store (Value F)) (executorID : String) (state : AssignedState) : Prop :=
  SlashFree executorID ∧ ∃ kv record, s.get (assignedStateKey pre ns executorID) = some kv ∧
    kv.value = .assignedState record ∧ state = record.toAssignedState kv.modRevision

/-- The store holds a metadata value of an executor. -/
def MetadataAt [Encoding F] (pre ns : String) (s : Store (Value F)) (executorID name value : String) : Prop :=
  SlashFree executorID ∧ ∃ kv, s.get (buildMetadataKey pre ns executorID name) = some kv ∧
    Encoding.bytes kv.value = value

theorem metadataAt_iff [Encoding F] {executorID name value : String} : MetadataAt pre ns s executorID name value ↔
    SlashFree executorID ∧ ∃ v, (s.get (buildMetadataKey pre ns executorID name)).map KeyValue.value = some v ∧
      Encoding.bytes v = value := by
  refine and_congr_right fun _ => ?_
  constructor
  · rintro ⟨kv, hget, hbytes⟩
    exact ⟨kv.value, by rw [hget]; rfl, hbytes⟩
  · rintro ⟨v, hmap, hbytes⟩
    obtain ⟨kv, hget, rfl⟩ := Option.map_eq_some_iff.mp hmap
    exact ⟨kv, hget, hbytes⟩

/-- The store marks a shard as drained. -/
def DrainedAt (pre ns : String) (s : Store (Value F)) (shardID : String) : Prop :=
  validateShardID shardID = .ok () ∧ ∃ kv, s.get (buildDrainedShardKey pre ns shardID) = some kv

/-- No key sits at the directory name of an executor's metadata. -/
def NoBareKeys (pre ns : String) (s : Store (Value F)) : Prop :=
  ∀ executorID, SlashFree executorID → s.get (buildExecutorKey pre ns executorID .metadata) = none

theorem hasRecord_range {executorID : String} {state : AssignedState} :
    HasRecord pre ns (s.range (.withPrefix (buildExecutorsPrefix pre ns))) executorID state ↔
      RecordAt pre ns s executorID state := by
  have hpre : hasPrefix (buildExecutorKey pre ns executorID .assignedState) (buildExecutorsPrefix pre ns) =
      true := by
    exact hasPrefix_executorsPrefix_key _ _
  simp only [HasRecord, RecordAt, assignedStateKey, Store.mem_range_iff, Range.contains, hpre, true_and]

theorem hasMetadata_range [Encoding F] {executorID name value : String} :
    HasMetadata pre ns (s.range (.withPrefix (buildExecutorsPrefix pre ns))) executorID name value ↔
      MetadataAt pre ns s executorID name value := by
  have hpre : hasPrefix (buildMetadataKey pre ns executorID name) (buildExecutorsPrefix pre ns) = true := by
    rw [hasPrefix_iff, toList_buildMetadataKey]
    exact List.prefix_append _ _
  simp only [HasMetadata, MetadataAt, Store.mem_range_iff, Range.contains, hpre, true_and]

theorem noBareMetadata_range (h : NoBareKeys pre ns s) {range : Range} : NoBareMetadata pre ns (s.range range) := by
  rintro ⟨key, kv⟩ hmem executorID hid rfl
  have hget := (Store.mem_range_iff.mp hmem).2
  rw [h executorID hid] at hget
  cases hget

section Drains

variable {key : String}

/-- A key of a directory of valid names parses to exactly the name it was built
from. -/
theorem parse_directory_iff (dir : String) (validate : String → Except String Unit) {malformed : String → String}
    {misplaced name : String} :
    (if hasPrefix key dir then
      match validate (trimPrefix key dir) with
      | .ok () => .ok (trimPrefix key dir)
      | .error reason => .error (malformed reason)
    else .error misplaced : Except String String) = .ok name ↔ key = dir ++ name ∧ validate name = .ok () := by
  constructor
  · intro h
    split at h
    · rename_i hpre
      split at h
      · rename_i hvalid
        cases h
        exact ⟨(append_trimPrefix hpre).symm, hvalid⟩
      · cases h
    · cases h
  · rintro ⟨rfl, hvalid⟩
    rw [if_pos (hasPrefix_append _ _), trimPrefix_append, hvalid]

theorem parseDrainedShardKey_eq_ok_iff {shardID : String} :
    parseDrainedShardKey pre ns key = .ok shardID ↔
      key = buildDrainedShardKey pre ns shardID ∧ validateShardID shardID = .ok () :=
  parse_directory_iff (buildDrainedShardsPrefix pre ns) validateShardID

theorem parseDrainedHostKey_eq_ok_iff {host : String} :
    parseDrainedHostKey pre ns key = .ok host ↔
      key = buildDrainedHostKey pre ns host ∧ hostname.validate host = .ok () :=
  parse_directory_iff (buildDrainedHostsPrefix pre ns) hostname.validate

/-- The names read from a directory are the valid ones with a key of their own. -/
theorem mem_parsed_directory {β : Type} {dir : String} {validate : String → Except String Unit}
    {entry : String × KeyValue (Value F) → Option (String × β)}
    (hentry : ∀ key kv name, (∃ b, entry (key, kv) = some (name, b)) ↔ key = dir ++ name ∧ validate name = .ok ())
    {name : String} : name ∈ Map.ofList ((s.range (.withPrefix dir)).filterMap entry) ↔
      validate name = .ok () ∧ ∃ kv, s.get (dir ++ name) = some kv := by
  rw [Map.mem_ofList]
  simp only [List.mem_map, List.mem_filterMap, Prod.exists, Store.mem_range_iff]
  constructor
  · rintro ⟨parsed, b, ⟨key, kv, ⟨-, hget⟩, hparsed⟩, rfl⟩
    obtain ⟨rfl, hvalid⟩ := (hentry key kv parsed).mp ⟨b, hparsed⟩
    exact ⟨hvalid, kv, hget⟩
  · rintro ⟨hvalid, kv, hget⟩
    obtain ⟨b, hparsed⟩ := (hentry (dir ++ name) kv name).mpr ⟨rfl, hvalid⟩
    exact ⟨name, b, ⟨_, kv, ⟨hasPrefix_append _ _, hget⟩, hparsed⟩, rfl⟩

/-- The drained shards read are those marked in the store. -/
theorem mem_parseDrainedShardKVs_range {shardID : String} :
    shardID ∈ parseDrainedShardKVs pre ns (s.range (.withPrefix (buildDrainedShardsPrefix pre ns))) ↔
      DrainedAt pre ns s shardID := by
  refine mem_parsed_directory fun key kv name => Iff.trans ?_ parseDrainedShardKey_eq_ok_iff
  cases hparse : parseDrainedShardKey pre ns key <;> simp [hparse]

/-- The drained hosts read are those with a key of their own, whatever it holds. -/
theorem mem_parseDrainedHostKVs_range {host : String} :
    host ∈ parseDrainedHostKVs pre ns (s.range (.withPrefix (buildDrainedHostsPrefix pre ns))) ↔
      hostname.validate host = .ok () ∧ ∃ kv, s.get (buildDrainedHostKey pre ns host) = some kv := by
  refine mem_parsed_directory fun key kv name => Iff.trans ?_ parseDrainedHostKey_eq_ok_iff
  cases hparse : parseDrainedHostKey pre ns key <;> simp [hparse]

end Drains

/-- What a read of assignments says about the store it was taken from. -/
structure Describes [Encoding F] (pre ns : String) (s : Store (Value F)) (state : AssignmentState) : Prop where
  assignments : ∀ executorID assigned,
    state.shardAssignments.lookup executorID = some assigned ↔ RecordAt pre ns s executorID assigned
  metadata : NoBareKeys pre ns s → ∀ executorID name value,
    (metadataOf state.executorMetadata executorID).lookup name = some value ↔
      MetadataAt pre ns s executorID name value
  drained : ∀ shardID, shardID ∈ state.drainedShards ↔ DrainedAt pre ns s shardID
  revision : state.revision = s.revision
  /-- A read succeeds only if every record can be decoded. -/
  decoded : ∀ {executorID kv}, SlashFree executorID → s.get (assignedStateKey pre ns executorID) = some kv →
    ∃ record, kv.value = .assignedState record
  /-- Readers that go through the metadata see every assignment. -/
  visible : ∀ {executorID}, executorID ∈ state.shardAssignments → executorID ∈ state.executorMetadata

variable [Encoding F]

theorem decoded_of_parse {result : Assignments}
    (h : parseExecutorAssignmentKVs pre ns (s.range (.withPrefix (buildExecutorsPrefix pre ns))) = .ok result)
    {executorID : String} {kv : KeyValue (Value F)} (hid : SlashFree executorID)
    (hget : s.get (assignedStateKey pre ns executorID) = some kv) :
    ∃ record, kv.value = .assignedState record := by
  refine assignedState_of_mem h hid (Store.mem_range_iff.mpr ⟨?_, hget⟩)
  exact hasPrefix_executorsPrefix_key _ _

theorem getAssignmentState_describes {state : AssignmentState} (h : getAssignmentState pre ns s = .ok state) :
    Describes pre ns s state ∧ state.assignmentRevision = s.modRevision (buildAssignmentVersionKey pre ns) := by
  obtain ⟨⟨metadata, assignments⟩, hparse, hstate⟩ := bind_eq_ok_iff.mp h
  cases hstate
  refine ⟨⟨?_, ?_, ?_, rfl, decoded_of_parse hparse, ?_⟩, rfl⟩
  · intro executorID assigned
    rw [← hasRecord_range]
    exact parseExecutorAssignmentKVs_assignments (s.nodup_keys_range _) hparse executorID assigned
  · intro hbare executorID name value
    rw [← hasMetadata_range]
    exact parseExecutorAssignmentKVs_metadata (s.nodup_keys_range _) (noBareMetadata_range hbare) hparse
      executorID name value
  · intro shardID
    exact mem_parseDrainedShardKVs_range
  · exact (executors_of_parse hparse).1 _

theorem getState_describes {order : RangeOrder} {state : NamespaceState F}
    (h : getState pre ns order s = .ok state) :
    Describes pre ns s state.toAssignmentState ∧
      ∀ {executorID}, executorID ∈ state.executors → SlashFree executorID := by
  obtain ⟨data, hparse, hstate⟩ := bind_eq_ok_iff.mp h
  cases hstate
  obtain ⟨result, hresult, hagree⟩ := parseExecutorAssignmentKVs_of_parseExecutorKVs hparse
  have hmetadata : ∀ executorID, (data.filterMapValues fun d => some d.metadata).lookup executorID =
      result.1.lookup executorID := by
    intro executorID
    rw [Map.lookup_filterMapValues, (hagree executorID).1]
    cases data.lookup executorID <;> rfl
  have hassigned : ∀ executorID, (data.filterMapValues (·.assignedState)).lookup executorID =
      result.2.lookup executorID := by
    intro executorID
    rw [Map.lookup_filterMapValues, (hagree executorID).2]
  refine ⟨⟨?_, ?_, ?_, rfl, decoded_of_parse hresult, ?_⟩, ?_⟩
  · intro executorID assigned
    rw [hassigned, ← hasRecord_range]
    exact parseExecutorAssignmentKVs_assignments (s.nodup_keys_range _) hresult executorID assigned
  · intro hbare executorID name value
    rw [metadataOf, hmetadata, ← metadataOf, ← hasMetadata_range]
    exact parseExecutorAssignmentKVs_metadata (s.nodup_keys_range _) (noBareMetadata_range hbare) hresult
      executorID name value
  · intro shardID
    exact mem_parseDrainedShardKVs_range
  · intro executorID hmem
    rw [Map.mem_iff_exists_lookup, hassigned, ← Map.mem_iff_exists_lookup] at hmem
    rw [Map.mem_iff_exists_lookup, hmetadata, ← Map.mem_iff_exists_lookup]
    exact (executors_of_parse hresult).1 _ hmem
  · intro executorID hmem
    obtain ⟨heartbeat, hlookup⟩ := Map.mem_iff_exists_lookup.mp hmem
    rw [Map.lookup_filterMapValues] at hlookup
    obtain ⟨executorData, hdata, -⟩ := Option.bind_eq_some_iff.mp hlookup
    exact slashFree_of_mem_parsed hparse (Map.mem_iff_exists_lookup.mpr ⟨_, hdata⟩)

namespace Describes

variable {state : AssignmentState}

/-- The revision of a record as a read returns it, 0 for a missing one. -/
theorem modRevision (h : Describes pre ns s state) {executorID : String} (hid : SlashFree executorID) :
    ((state.shardAssignments.lookup executorID).getD default).modRevision =
      s.modRevision (assignedStateKey pre ns executorID) := by
  cases hget : s.get (assignedStateKey pre ns executorID) with
  | none =>
    have hnone : state.shardAssignments.lookup executorID = none := by
      rw [Option.eq_none_iff_forall_ne_some]
      intro assigned hlookup
      obtain ⟨-, kv, record, hget', -⟩ := (h.assignments _ _).mp hlookup
      rw [hget] at hget'
      cases hget'
    rw [hnone, Store.modRevision_of_get_none hget]
    rfl
  | some kv =>
    obtain ⟨record, hrecord⟩ := h.decoded hid hget
    rw [(h.assignments _ _).mpr ⟨hid, kv, record, hget, hrecord, rfl⟩, Store.modRevision_of_get hget]
    rfl

end Describes

end Spec

end executorstore
