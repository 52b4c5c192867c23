import ShardManager.ExecutorStore.Entries
import ShardManager.ExecutorStore.Operations
import ShardManager.Hostname
import ShardManager.LoadBalancer.Statistics
import ShardManager.Namespaces

open golang etcd etcdkeys store types executorstore common

namespace types

inductive MigrationMode where
  | invalid
  | localPassthrough
  | onboarded
deriving DecidableEq, Repr

/-- The host name is a Go string: it need not be valid UTF-8. -/
structure ExecutorHeartbeatRequest (F : Type) where
  ns : String
  executorID : String
  status : ExecutorStatus
  shardStatusReports : Map String (Option (ShardStatusReport F))
  metadata : Map String String
  hostName : Option Bytes

structure ExecutorHeartbeatResponse where
  shardAssignments : Map String (Option ShardAssignment)
  migrationMode : MigrationMode

end types

namespace handler

open etcdtypes (Value Encoding)

variable {F : Type}

def maxMetadataKeys : Nat := 32

def maxMetadataKeyLength : Nat := 128

def maxMetadataValueSize : Nat := 512 * 1024

/-- The settings of a namespace that heartbeats depend on. -/
structure Config where
  mode : loadbalancer.Mode
  loadSmoothingTimeConstant : Option Duration

inductive HeartbeatError where
  | namespaceNotFound (message : String)
  | internalService (message : String)
  | badRequest (message : String)
deriving DecidableEq, Repr

def validateMetadata (order : RangeOrder) (metadata : Map String String) : Except String Unit :=
  if maxMetadataKeys < metadata.keys.length then
    .error s!"metadata has {metadata.keys.length} keys, which exceeds the maximum of {maxMetadataKeys}"
  else (order.range "validateMetadata" metadata).forM fun (key, value) =>
    if maxMetadataKeyLength < key.utf8ByteSize then
      .error s!"metadata key {quote key} has length {key.utf8ByteSize}, which exceeds the maximum of {maxMetadataKeyLength}"
    else if maxMetadataValueSize < value.utf8ByteSize then
      .error s!"metadata value for key {quote key} has size {value.utf8ByteSize} bytes, which exceeds the maximum of {maxMetadataValueSize} bytes"
    else .ok ()

def normalizeHostMetadata (hostName : Option Bytes) : Option Bytes := hostName.map hostname.normalize

/-- The stored host name is the reported one, so it need not be written. -/
def hostMatches (executorState : ExecutorState F) (hostName : Option Bytes) : Bool :=
  match executorState.heartbeat with
  | some heartbeat => decide (utf8 heartbeat.hostname = (normalizeHostMetadata hostName).getD [])
  | none => false

/-- The heartbeat to store. A nil host leaves the stored one untouched; the
host that is written is what a reader will decode. -/
def newHeartbeat (request : ExecutorHeartbeatRequest F) (heartbeatTime : Time) (executorState : ExecutorState F) :
    HeartbeatState F where
  lastHeartbeat := heartbeatTime
  status := request.status
  reportedShards := request.shardStatusReports
  metadata := request.metadata
  hostMetadata :=
    if hostMatches executorState request.hostName then none
    else (normalizeHostMetadata request.hostName).map fun hostName => ⟨jsonString hostName⟩

def convertResponse (shards : Option AssignedState) (mode : MigrationMode) : ExecutorHeartbeatResponse where
  shardAssignments := match shards with
    | none => ∅
    | some shards => shards.assignedShards
  migrationMode := mode

section Model

variable (pre : String)

/-- The first part of `Heartbeat`: what it reads. An executor without a state
sends its first heartbeat. -/
def readExecutorState [Encoding F] (registry : namespaces.Registry) (request : ExecutorHeartbeatRequest F)
    (s : Store (Value F)) : Except HeartbeatError (ExecutorState F) :=
  match registry.get request.ns with
  | .error message => .error (.namespaceNotFound message)
  | .ok _ =>
    match getExecutorState pre request.ns request.executorID s with
    | .ok executorState => .ok executorState
    | .error .executorNotFound => .ok default
    | .error err => .error (.internalService ("failed to get heartbeat: " ++ err.message))

variable [Float64 F] [DecidableEq F]

/-- The second part: storing the heartbeat. -/
def storeHeartbeat (order : RangeOrder) (request : ExecutorHeartbeatRequest F) (heartbeatTime : Time)
    (executorState : ExecutorState F) (fate : Fate) (s : Store (Value F)) :
    Except HeartbeatError Unit × Store (Value F) :=
  match validateMetadata order request.metadata with
  | .error message => (.error (.badRequest ("invalid metadata: " ++ message)), s)
  | .ok () =>
    match recordHeartbeat pre request.ns order request.executorID (newHeartbeat request heartbeatTime executorState)
        fate s with
    | (.error err, s) => (.error (.internalService ("failed to record heartbeat: " ++ err.message)), s)
    | (.ok (), s) => (.ok (), s)

/-- The third part: storing statistics. Its errors are logged only. -/
def recordShardStatistics [ExpFloat64 F] (cfg : Config) (order : RangeOrder) (request : ExecutorHeartbeatRequest F)
    (assignedState : Option AssignedState) (previousStats : Map String (ShardStatistics F)) (now : Time)
    (fate : Fate) (s : Store (Value F)) : Store (Value F) :=
  match loadbalancer.prepareShardStatistics order cfg.mode cfg.loadSmoothingTimeConstant request.shardStatusReports
      assignedState previousStats now, assignedState with
  | .ok (updatedStats, true), some assignedState =>
    (executorstore.recordShardStatistics pre request.ns request.executorID assignedState.modRevision updatedStats
      fate s).2
  | _, _ => s

/-- `Heartbeat` when nothing happens to the store between its parts. -/
def heartbeat [ExpFloat64 F] [Encoding F] (registry : namespaces.Registry) (cfg : Config) (order : RangeOrder)
    (request : ExecutorHeartbeatRequest F) (heartbeatTime : Time) (fate statisticsFate : Fate)
    (s : Store (Value F)) : Except HeartbeatError ExecutorHeartbeatResponse × Store (Value F) :=
  match readExecutorState pre registry request s with
  | .error err => (.error err, s)
  | .ok executorState =>
    match storeHeartbeat pre order request heartbeatTime executorState fate s with
    | (.error err, s) => (.error err, s)
    | (.ok (), s) =>
      (.ok (convertResponse executorState.assignment .onboarded),
        recordShardStatistics pre cfg order request executorState.assignment executorState.statistics heartbeatTime
          statisticsFate s)

end Model

section Spec

variable {pre : String} [Float64 F] [DecidableEq F] {order : RangeOrder} {request : ExecutorHeartbeatRequest F}
  {s s' : Store (Value F)}

/-- What the second part does to the store. -/
theorem storeHeartbeat_cases {heartbeatTime : Time} {executorState : ExecutorState F} {fate : Fate}
    {result : Except HeartbeatError Unit}
    (h : storeHeartbeat pre order request heartbeatTime executorState fate s = (result, s')) :
    (s' = s ∧ ∃ err, result = .error err) ∨
    ∃ (unchanged : Bool) (reportedShards : Value F), marshalReports request.shardStatusReports = .ok reportedShards ∧
      Applied (if unchanged then heartbeatOps pre request.ns order request.executorID
          (newHeartbeat request heartbeatTime executorState) reportedShards
        else heartbeatOps pre request.ns order request.executorID
          (newHeartbeat request heartbeatTime executorState) reportedShards ++
            [touchAssignmentVersion pre request.ns]) s s' := by
  unfold storeHeartbeat at h
  split at h
  · cases h
    exact .inl ⟨rfl, _, rfl⟩
  · split at h <;> rename_i hrecord <;> cases h <;> rcases recordHeartbeat_cases hrecord with ⟨hsame, hresult⟩ | happlied
    · exact .inl ⟨hsame, _, rfl⟩
    · exact .inr ⟨_, happlied⟩
    · obtain ⟨err, hresult⟩ := hresult
      cases hresult
    · exact .inr ⟨_, happlied⟩

/-- What the third part does to the store. -/
theorem recordShardStatistics_cases [ExpFloat64 F] {cfg : Config} {assignedState : Option AssignedState}
    {previousStats : Map String (ShardStatistics F)} {now : Time} {fate : Fate}
    (h : recordShardStatistics pre cfg order request assignedState previousStats now fate s = s') :
    s' = s ∨ ∃ assigned updatedStats, assignedState = some assigned ∧
      loadbalancer.prepareShardStatistics order cfg.mode cfg.loadSmoothingTimeConstant request.shardStatusReports
        assignedState previousStats now = .ok (updatedStats, true) ∧
      s.modRevision (assignedStateKey pre request.ns request.executorID) = assigned.modRevision ∧
      Applied [.put (statisticsKey pre request.ns request.executorID)
        (.statistics (etcdtypes.jsonObject updatedStats))] s s' := by
  unfold recordShardStatistics at h
  split at h
  · rename_i updatedStats assigned hprepare
    subst h
    rcases hcall : executorstore.recordShardStatistics pre request.ns request.executorID assigned.modRevision
      updatedStats fate s with ⟨result, s'⟩
    rcases executorstore.recordShardStatistics_cases hcall with hsame | ⟨hrevision, happlied⟩
    · exact .inl hsame
    · exact .inr ⟨assigned, updatedStats, rfl, hprepare, hrevision, happlied⟩
  · exact .inl h.symm

end Spec

section Examples

/-- One fixed namespace. -/
def exampleRegistry : namespaces.Registry := ⟨Map.ofList [("ns", ⟨"ns", .fixed, 2⟩)]⟩

def exampleConfig : Config := ⟨.greedy, none⟩

/-- An active executor that reports a host and nothing else. -/
def requestOf (executorID : String) (hostName : Bytes) : ExecutorHeartbeatRequest ExactFloat where
  ns := "ns"
  executorID := executorID
  status := .active
  shardStatusReports := ∅
  metadata := Map.ofList [("zone", "a/b")]
  hostName := some hostName

end Examples

end handler
