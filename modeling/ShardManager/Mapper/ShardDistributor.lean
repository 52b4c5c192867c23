import ShardManager.Golang.Convert
import ShardManager.Handler.Heartbeat

open golang

namespace types

-- The zero value of each enumeration, which a getter reads from a nil pointer.
instance : Inhabited ExecutorStatus := ⟨.invalid⟩
instance : Inhabited ShardStatus := ⟨.invalid⟩
instance : Inhabited AssignmentStatus := ⟨.invalid⟩
instance : Inhabited HandoverType := ⟨.invalid⟩
instance : Inhabited MigrationMode := ⟨.invalid⟩

end types

-- The messages as the code has them, with nil pointers, nil maps and nil slices.
-- The mappers only copy strings and loads: `S` stands for `string` and `F` for
-- `float64`.
namespace mapper

variable (S F : Type)

structure HostMetadata where
  hostName : S

structure ShardStatusReport where
  status : Enum types.ShardStatus
  shardLoad : F
deriving Inhabited

structure ExecutorHeartbeatRequest where
  ns : S
  executorID : S
  status : Enum types.ExecutorStatus
  shardStatusReports : Option (Map S (Option (ShardStatusReport F)))
  metadata : Option (Map S S)
  hostMetadata : Option (HostMetadata S)

structure ShardAssignment where
  status : Enum types.AssignmentStatus
deriving Inhabited

structure ExecutorHeartbeatResponse where
  shardAssignments : Option (Map S (Option ShardAssignment))
  migrationMode : Enum types.MigrationMode

structure Shard where
  shardKey : S
deriving Inhabited

structure ExecutorShardAssignment where
  executorID : S
  assignedShards : Slice (Option (Shard S))
  metadata : Option (Map S S)
deriving Inhabited

structure WatchNamespaceStateResponse where
  executors : Slice (Option (ExecutorShardAssignment S))
  drainedShardKeys : Slice S
  assignmentRevision : Int

structure ExecutorAssignedShardState where
  shardKey : S
  assignmentStatus : Enum types.AssignmentStatus
  assignedStateModRevision : Int
deriving Inhabited

structure NamespaceExecutorState where
  executorID : S
  status : Enum types.ExecutorStatus
  lastHeartbeat : ZonedTime
  metadata : Option (Map S S)
  assignedShards : Slice (Option (ExecutorAssignedShardState S))
  hostMetadata : Option (HostMetadata S)

structure GetNamespaceStateResponse where
  ns : S
  executors : Slice (Option (NamespaceExecutorState S))

structure HeartbeatState where
  lastHeartbeat : ZonedTime
  status : Enum types.ExecutorStatus
  reportedShards : Option (Map S (Option (ShardStatusReport F)))
  metadata : Option (Map S S)

structure ShardStatistics where
  smoothedLoad : F
  lastUpdateTime : ZonedTime
  lastMoveTime : ZonedTime

structure ShardHandoverStats where
  previousExecutorLastHeartbeatTime : ZonedTime
  handoverType : Enum types.HandoverType
deriving Inhabited

structure AssignedState where
  assignedShards : Option (Map S (Option ShardAssignment))
  shardHandoverStats : Option (Map S (Option ShardHandoverStats))
  lastUpdated : ZonedTime
  modRevision : Int

structure DrainedHost where
  hostname : S
  drainedAt : ZonedTime
  drainedBy : S
  reason : S

structure GetFullNamespaceStateResponse where
  ns : S
  executors : Option (Map S (Option (HeartbeatState S F)))
  shardStats : Option (Map S (Option (ShardStatistics F)))
  shardAssignments : Option (Map S (Option (AssignedState S)))
  drainedShards : Slice S
  drainedHosts : Option (Map S (Option (DrainedHost S)))

structure DrainHostsRequest where
  ns : S
  hosts : Slice (Option (DrainedHost S))

/-- `Timestamp` of the protobuf runtime. -/
structure Timestamp where
  seconds : Int
  nanos : Int

namespace sharddistributorv1

inductive ExecutorStatus where
  | invalid
  | active
  | draining
  | drained
deriving Inhabited

inductive ShardStatus where
  | invalid
  | ready
  | done
deriving Inhabited

inductive AssignmentStatus where
  | invalid
  | ready
deriving Inhabited

inductive HandoverType where
  | invalid
  | graceful
  | emergency
deriving Inhabited

inductive MigrationMode where
  | invalid
  | localPassthrough
  | onboarded
deriving Inhabited

structure HostMetadata where
  hostName : S

structure ShardStatusReport where
  status : Enum ShardStatus
  shardLoad : F
deriving Inhabited

structure HeartbeatRequest where
  ns : S
  executorId : S
  status : Enum ExecutorStatus
  shardStatusReports : Option (Map S (Option (ShardStatusReport F)))
  metadata : Option (Map S S)
  hostMetadata : Option (HostMetadata S)

structure ShardAssignment where
  status : Enum AssignmentStatus
deriving Inhabited

structure HeartbeatResponse where
  shardAssignments : Option (Map S (Option ShardAssignment))
  migrationMode : Enum MigrationMode

structure Shard where
  shardKey : S
deriving Inhabited

structure ExecutorInfo where
  executorId : S
  metadata : Option (Map S S)
  shards : Slice (Option (Shard S))
deriving Inhabited

structure WatchNamespaceStateResponse where
  executors : Slice (Option (ExecutorInfo S))
  drainedShardKeys : Slice S
  assignmentRevision : Int

structure AssignedShardState where
  shardKey : S
  assignmentStatus : Enum AssignmentStatus
  assignedStateModRevision : Int
deriving Inhabited

structure NamespaceExecutorState where
  executorId : S
  status : Enum ExecutorStatus
  lastHeartbeat : Option Timestamp
  metadata : Option (Map S S)
  assignedShards : Slice (Option (AssignedShardState S))
  hostMetadata : Option (HostMetadata S)

structure GetNamespaceStateResponse where
  ns : S
  executors : Slice (Option (NamespaceExecutorState S))

structure HeartbeatState where
  lastHeartbeat : Option Timestamp
  status : Enum ExecutorStatus
  reportedShards : Option (Map S (Option (ShardStatusReport F)))
  metadata : Option (Map S S)

structure ShardStatistics where
  smoothedLoad : F
  lastUpdateTime : Option Timestamp
  lastMoveTime : Option Timestamp

structure ShardHandoverStats where
  previousExecutorLastHeartbeatTime : Option Timestamp
  handoverType : Enum HandoverType
deriving Inhabited

structure AssignedState where
  assignedShards : Option (Map S (Option ShardAssignment))
  shardHandoverStats : Option (Map S (Option ShardHandoverStats))
  lastUpdated : Option Timestamp
  modRevision : Int

structure DrainedHost where
  hostname : S
  drainedAt : Option Timestamp
  drainedBy : S
  reason : S

structure GetFullNamespaceStateResponse where
  ns : S
  executors : Option (Map S (Option (HeartbeatState S F)))
  shardStats : Option (Map S (Option (ShardStatistics F)))
  shardAssignments : Option (Map S (Option (AssignedState S)))
  drainedShards : Slice S
  drainedHosts : Option (Map S (Option (DrainedHost S)))

structure DrainHostsRequest where
  ns : S
  hosts : Slice (Option (DrainedHost S))

end sharddistributorv1

variable {S F : Type}

section Times

/-- `TimestampProto` of the protobuf runtime, which is taken to be exact. -/
def timestampProto (t : ZonedTime) : Timestamp where
  seconds := (t.instant - ZonedTime.unixEpoch) / 10 ^ 9
  nanos := (t.instant - ZonedTime.unixEpoch) % 10 ^ 9

def unixNanoToTime (t : Option Int) : Option Timestamp := t.map fun t => timestampProto (.unix 0 t)

def timeToTimestamp (t : Option ZonedTime) : Option Timestamp :=
  t.bind fun t => if t.isZero then none else unixNanoToTime (some t.unixNano)

def timestampToTimeVal (t : Option Timestamp) : ZonedTime :=
  t.elim .zero fun t => (ZonedTime.unix t.seconds t.nanos).utc

end Times

section Enums

def fromShardDistributorMigrationMode : Enum types.MigrationMode → Enum sharddistributorv1.MigrationMode
  | .declared .invalid => .declared .invalid
  | .declared .localPassthrough => .declared .localPassthrough
  | .declared .onboarded => .declared .onboarded
  | .other _ => .declared .invalid

def toShardDistributorMigrationMode : Enum sharddistributorv1.MigrationMode → Enum types.MigrationMode
  | .declared .localPassthrough => .declared .localPassthrough
  | .declared .onboarded => .declared .onboarded
  | _ => .declared .invalid

def fromShardDistributorExecutorStatus : Enum types.ExecutorStatus → Enum sharddistributorv1.ExecutorStatus
  | .declared .invalid => .declared .invalid
  | .declared .active => .declared .active
  | .declared .draining => .declared .draining
  | .declared .drained => .declared .drained
  | .other _ => .declared .invalid

def toShardDistributorExecutorStatus : Enum sharddistributorv1.ExecutorStatus → Enum types.ExecutorStatus
  | .declared .active => .declared .active
  | .declared .draining => .declared .draining
  | .declared .drained => .declared .drained
  | _ => .declared .invalid

def fromShardDistributorShardStatus : Enum types.ShardStatus → Enum sharddistributorv1.ShardStatus
  | .declared .invalid => .declared .invalid
  | .declared .ready => .declared .ready
  | .declared .done => .declared .done
  | .other _ => .declared .invalid

def toShardDistributorShardStatus : Enum sharddistributorv1.ShardStatus → Enum types.ShardStatus
  | .declared .ready => .declared .ready
  | .declared .done => .declared .done
  | _ => .declared .invalid

def fromShardDistributorAssignmentStatus :
    Enum types.AssignmentStatus → Enum sharddistributorv1.AssignmentStatus
  | .declared .invalid => .declared .invalid
  | .declared .ready => .declared .ready
  | .other _ => .declared .invalid

def toShardDistributorAssignmentStatus :
    Enum sharddistributorv1.AssignmentStatus → Enum types.AssignmentStatus
  | .declared .ready => .declared .ready
  | _ => .declared .invalid

/-- The switch in `fromShardDistributorAssignedState`. -/
def fromHandoverType : Enum types.HandoverType → Enum sharddistributorv1.HandoverType
  | .declared .invalid => .declared .invalid
  | .declared .graceful => .declared .graceful
  | .declared .emergency => .declared .emergency
  | .other _ => .declared .invalid

/-- The switch in `toShardDistributorAssignedState`. -/
def toHandoverType : Enum sharddistributorv1.HandoverType → Enum types.HandoverType
  | .declared .invalid => .declared .invalid
  | .declared .graceful => .declared .graceful
  | .declared .emergency => .declared .emergency
  | .other _ => .declared .invalid

end Enums

section Heartbeats

variable [Inhabited F]

def fromShardDistributorHostMetadata (t : Option (HostMetadata S)) : Option (sharddistributorv1.HostMetadata S) :=
  t.map fun t => { hostName := t.hostName }

def toShardDistributorHostMetadata (t : Option (sharddistributorv1.HostMetadata S)) : Option (HostMetadata S) :=
  t.map fun t => { hostName := t.hostName }

-- The getters read the zero value from an entry that is nil.
def fromShardDistributorShardStatusReports (reports : Option (Map S (Option (ShardStatusReport F)))) :
    Option (Map S (Option (sharddistributorv1.ShardStatusReport F))) :=
  reports.map (Map.mapValues fun report => some
    { status := fromShardDistributorShardStatus (report.getD default).status
      shardLoad := (report.getD default).shardLoad })

def toShardDistributorShardStatusReports
    (reports : Option (Map S (Option (sharddistributorv1.ShardStatusReport F)))) :
    Option (Map S (Option (ShardStatusReport F))) :=
  reports.map (Map.mapValues fun report => some
    { status := toShardDistributorShardStatus (report.getD default).status
      shardLoad := (report.getD default).shardLoad })

def fromShardDistributorShardAssignments (assignments : Option (Map S (Option ShardAssignment))) :
    Option (Map S (Option sharddistributorv1.ShardAssignment)) :=
  assignments.map (Map.mapValues fun assignment => some
    { status := fromShardDistributorAssignmentStatus (assignment.getD default).status })

def toShardDistributorShardAssignments (assignments : Option (Map S (Option sharddistributorv1.ShardAssignment))) :
    Option (Map S (Option ShardAssignment)) :=
  assignments.map (Map.mapValues fun assignment => some
    { status := toShardDistributorAssignmentStatus (assignment.getD default).status })

def fromShardDistributorExecutorHeartbeatRequest (t : Option (ExecutorHeartbeatRequest S F)) :
    Option (sharddistributorv1.HeartbeatRequest S F) :=
  t.map fun t =>
    { ns := t.ns
      executorId := t.executorID
      status := fromShardDistributorExecutorStatus t.status
      shardStatusReports := fromShardDistributorShardStatusReports t.shardStatusReports
      metadata := t.metadata
      hostMetadata := fromShardDistributorHostMetadata t.hostMetadata }

def toShardDistributorExecutorHeartbeatRequest (t : Option (sharddistributorv1.HeartbeatRequest S F)) :
    Option (ExecutorHeartbeatRequest S F) :=
  t.map fun t =>
    { ns := t.ns
      executorID := t.executorId
      status := toShardDistributorExecutorStatus t.status
      shardStatusReports := toShardDistributorShardStatusReports t.shardStatusReports
      metadata := t.metadata
      hostMetadata := toShardDistributorHostMetadata t.hostMetadata }

def fromShardDistributorExecutorHeartbeatResponse (t : Option (ExecutorHeartbeatResponse S)) :
    Option (sharddistributorv1.HeartbeatResponse S) :=
  t.map fun t =>
    { shardAssignments := fromShardDistributorShardAssignments t.shardAssignments
      migrationMode := fromShardDistributorMigrationMode t.migrationMode }

def toShardDistributorExecutorHeartbeatResponse (t : Option (sharddistributorv1.HeartbeatResponse S)) :
    Option (ExecutorHeartbeatResponse S) :=
  t.map fun t =>
    { shardAssignments := toShardDistributorShardAssignments t.shardAssignments
      migrationMode := toShardDistributorMigrationMode t.migrationMode }

end Heartbeats

section WatchNamespaceState

variable [Inhabited S]

/-- The body of the loop over the executors. -/
def fromExecutorShardAssignment (executor : Option (ExecutorShardAssignment S)) :
    Option (sharddistributorv1.ExecutorInfo S) :=
  some
    { executorId := (executor.getD default).executorID
      metadata := (executor.getD default).metadata
      shards := some (((executor.getD default).assignedShards.getD []).map fun shard => some
        { shardKey := (shard.getD default).shardKey }) }

/-- The body of the loop over the executors. -/
def toExecutorShardAssignment (executor : Option (sharddistributorv1.ExecutorInfo S)) :
    Option (ExecutorShardAssignment S) :=
  some
    { executorID := (executor.getD default).executorId
      metadata := (executor.getD default).metadata
      assignedShards := some (((executor.getD default).shards.getD []).map fun shard => some
        { shardKey := (shard.getD default).shardKey }) }

def fromShardDistributorWatchNamespaceStateResponse (t : Option (WatchNamespaceStateResponse S)) :
    Option (sharddistributorv1.WatchNamespaceStateResponse S) :=
  t.map fun t =>
    -- The slice starts as nil, and stays so if there is no executor.
    { executors := Slice.appended ((t.executors.getD []).map fromExecutorShardAssignment)
      drainedShardKeys := t.drainedShardKeys
      assignmentRevision := t.assignmentRevision }

def toShardDistributorWatchNamespaceStateResponse (t : Option (sharddistributorv1.WatchNamespaceStateResponse S)) :
    Option (WatchNamespaceStateResponse S) :=
  t.map fun t =>
    { executors := t.executors.map (List.map toExecutorShardAssignment)
      drainedShardKeys := t.drainedShardKeys
      assignmentRevision := t.assignmentRevision }

end WatchNamespaceState

section NamespaceState

variable [Inhabited S]

def fromShardDistributorNamespaceExecutorState (ex : Option (NamespaceExecutorState S)) :
    Option (sharddistributorv1.NamespaceExecutorState S) :=
  ex.map fun ex =>
    { executorId := ex.executorID
      status := fromShardDistributorExecutorStatus ex.status
      lastHeartbeat := timeToTimestamp (some ex.lastHeartbeat)
      metadata := ex.metadata
      assignedShards := ex.assignedShards.map (List.map fun sh => some
        { shardKey := (sh.getD default).shardKey
          assignmentStatus := fromShardDistributorAssignmentStatus (sh.getD default).assignmentStatus
          assignedStateModRevision := (sh.getD default).assignedStateModRevision })
      hostMetadata := fromShardDistributorHostMetadata ex.hostMetadata }

def toShardDistributorNamespaceExecutorState (ex : Option (sharddistributorv1.NamespaceExecutorState S)) :
    Option (NamespaceExecutorState S) :=
  ex.map fun ex =>
    { executorID := ex.executorId
      status := toShardDistributorExecutorStatus ex.status
      lastHeartbeat := timestampToTimeVal ex.lastHeartbeat
      metadata := ex.metadata
      assignedShards := ex.assignedShards.map (List.map fun sh => some
        { shardKey := (sh.getD default).shardKey
          assignmentStatus := toShardDistributorAssignmentStatus (sh.getD default).assignmentStatus
          assignedStateModRevision := (sh.getD default).assignedStateModRevision })
      hostMetadata := toShardDistributorHostMetadata ex.hostMetadata }

def fromShardDistributorGetNamespaceStateResponse (t : Option (GetNamespaceStateResponse S)) :
    Option (sharddistributorv1.GetNamespaceStateResponse S) :=
  t.map fun t =>
    { ns := t.ns
      executors := t.executors.map (List.map fromShardDistributorNamespaceExecutorState) }

def toShardDistributorGetNamespaceStateResponse (t : Option (sharddistributorv1.GetNamespaceStateResponse S)) :
    Option (GetNamespaceStateResponse S) :=
  t.map fun t =>
    { ns := t.ns
      executors := t.executors.map (List.map toShardDistributorNamespaceExecutorState) }

end NamespaceState

section FullNamespaceState

variable [Inhabited F]

def fromShardDistributorHeartbeatState (t : Option (HeartbeatState S F)) :
    Option (sharddistributorv1.HeartbeatState S F) :=
  t.map fun t =>
    { lastHeartbeat := timeToTimestamp (some t.lastHeartbeat)
      status := fromShardDistributorExecutorStatus t.status
      reportedShards := fromShardDistributorShardStatusReports t.reportedShards
      metadata := t.metadata }

def toShardDistributorHeartbeatState (t : Option (sharddistributorv1.HeartbeatState S F)) :
    Option (HeartbeatState S F) :=
  t.map fun t =>
    { lastHeartbeat := timestampToTimeVal t.lastHeartbeat
      status := toShardDistributorExecutorStatus t.status
      reportedShards := toShardDistributorShardStatusReports t.reportedShards
      metadata := t.metadata }

def fromShardDistributorShardStatistics (t : Option (ShardStatistics F)) :
    Option (sharddistributorv1.ShardStatistics F) :=
  t.map fun t =>
    { smoothedLoad := t.smoothedLoad
      lastUpdateTime := timeToTimestamp (some t.lastUpdateTime)
      lastMoveTime := timeToTimestamp (some t.lastMoveTime) }

def toShardDistributorShardStatistics (t : Option (sharddistributorv1.ShardStatistics F)) :
    Option (ShardStatistics F) :=
  t.map fun t =>
    { smoothedLoad := t.smoothedLoad
      lastUpdateTime := timestampToTimeVal t.lastUpdateTime
      lastMoveTime := timestampToTimeVal t.lastMoveTime }

def fromShardDistributorAssignedState (t : Option (AssignedState S)) :
    Option (sharddistributorv1.AssignedState S) :=
  t.map fun t =>
    { assignedShards := fromShardDistributorShardAssignments t.assignedShards
      shardHandoverStats := t.shardHandoverStats.map (Map.mapValues fun statistics => some
        { previousExecutorLastHeartbeatTime :=
            timeToTimestamp (some (statistics.getD default).previousExecutorLastHeartbeatTime)
          handoverType := fromHandoverType (statistics.getD default).handoverType })
      lastUpdated := timeToTimestamp (some t.lastUpdated)
      modRevision := t.modRevision }

def toShardDistributorAssignedState (t : Option (sharddistributorv1.AssignedState S)) :
    Option (AssignedState S) :=
  t.map fun t =>
    { assignedShards := toShardDistributorShardAssignments t.assignedShards
      shardHandoverStats := t.shardHandoverStats.map (Map.mapValues fun statistics => some
        { previousExecutorLastHeartbeatTime :=
            timestampToTimeVal (statistics.getD default).previousExecutorLastHeartbeatTime
          handoverType := toHandoverType (statistics.getD default).handoverType })
      lastUpdated := timestampToTimeVal t.lastUpdated
      modRevision := t.modRevision }

def fromShardDistributorDrainedHost (t : Option (DrainedHost S)) : Option (sharddistributorv1.DrainedHost S) :=
  t.map fun t =>
    { hostname := t.hostname
      drainedAt := timeToTimestamp (some t.drainedAt)
      drainedBy := t.drainedBy
      reason := t.reason }

def toShardDistributorDrainedHost (t : Option (sharddistributorv1.DrainedHost S)) : Option (DrainedHost S) :=
  t.map fun t =>
    { hostname := t.hostname
      drainedAt := timestampToTimeVal t.drainedAt
      drainedBy := t.drainedBy
      reason := t.reason }

def fromShardDistributorGetFullNamespaceStateResponse (t : Option (GetFullNamespaceStateResponse S F)) :
    Option (sharddistributorv1.GetFullNamespaceStateResponse S F) :=
  t.map fun t =>
    { ns := t.ns
      executors := t.executors.map (Map.mapValues fromShardDistributorHeartbeatState)
      shardStats := t.shardStats.map (Map.mapValues fromShardDistributorShardStatistics)
      shardAssignments := t.shardAssignments.map (Map.mapValues fromShardDistributorAssignedState)
      drainedShards := t.drainedShards
      drainedHosts := t.drainedHosts.map (Map.mapValues fromShardDistributorDrainedHost) }

def toShardDistributorGetFullNamespaceStateResponse
    (t : Option (sharddistributorv1.GetFullNamespaceStateResponse S F)) :
    Option (GetFullNamespaceStateResponse S F) :=
  t.map fun t =>
    { ns := t.ns
      executors := t.executors.map (Map.mapValues toShardDistributorHeartbeatState)
      shardStats := t.shardStats.map (Map.mapValues toShardDistributorShardStatistics)
      shardAssignments := t.shardAssignments.map (Map.mapValues toShardDistributorAssignedState)
      drainedShards := t.drainedShards
      drainedHosts := t.drainedHosts.map (Map.mapValues toShardDistributorDrainedHost) }

end FullNamespaceState

section DrainHosts

def fromShardDistributorDrainedHosts (hosts : Slice (Option (DrainedHost S))) :
    Slice (Option (sharddistributorv1.DrainedHost S)) :=
  hosts.map (List.map fromShardDistributorDrainedHost)

def toShardDistributorDrainedHosts (hosts : Slice (Option (sharddistributorv1.DrainedHost S))) :
    Slice (Option (DrainedHost S)) :=
  hosts.map (List.map toShardDistributorDrainedHost)

def fromShardDistributorDrainHostsRequest (t : Option (DrainHostsRequest S)) :
    Option (sharddistributorv1.DrainHostsRequest S) :=
  t.map fun t => { ns := t.ns, hosts := fromShardDistributorDrainedHosts t.hosts }

def toShardDistributorDrainHostsRequest (t : Option (sharddistributorv1.DrainHostsRequest S)) :
    Option (DrainHostsRequest S) :=
  t.map fun t => { ns := t.ns, hosts := toShardDistributorDrainedHosts t.hosts }

end DrainHosts

end mapper
