import ShardManager.Mapper.ShardDistributor

open golang

namespace mapper

variable {S F : Type}

-- Enumerations have declared values, no entry of a map or slice is nil, and times
-- are representable.

def ShardStatusReport.WellFormed (t : ShardStatusReport F) : Prop := t.status.Declared

def ShardAssignment.WellFormed (t : ShardAssignment) : Prop := t.status.Declared

structure ExecutorHeartbeatRequest.WellFormed (t : ExecutorHeartbeatRequest S F) : Prop where
  status : t.status.Declared
  shardStatusReports : Map.All ShardStatusReport.WellFormed t.shardStatusReports

structure ExecutorHeartbeatResponse.WellFormed (t : ExecutorHeartbeatResponse S) : Prop where
  shardAssignments : Map.All ShardAssignment.WellFormed t.shardAssignments
  migrationMode : t.migrationMode.Declared

def ExecutorShardAssignment.WellFormed (t : ExecutorShardAssignment S) : Prop :=
  Slice.All (fun _ => True) t.assignedShards

def WatchNamespaceStateResponse.WellFormed (t : WatchNamespaceStateResponse S) : Prop :=
  Slice.All ExecutorShardAssignment.WellFormed t.executors

def ExecutorAssignedShardState.WellFormed (t : ExecutorAssignedShardState S) : Prop := t.assignmentStatus.Declared

structure NamespaceExecutorState.WellFormed (t : NamespaceExecutorState S) : Prop where
  status : t.status.Declared
  lastHeartbeat : t.lastHeartbeat.Representable
  assignedShards : Slice.All ExecutorAssignedShardState.WellFormed t.assignedShards

def GetNamespaceStateResponse.WellFormed (t : GetNamespaceStateResponse S) : Prop :=
  Slice.All NamespaceExecutorState.WellFormed t.executors

structure HeartbeatState.WellFormed (t : HeartbeatState S F) : Prop where
  lastHeartbeat : t.lastHeartbeat.Representable
  status : t.status.Declared
  reportedShards : Map.All ShardStatusReport.WellFormed t.reportedShards

structure ShardStatistics.WellFormed (t : ShardStatistics F) : Prop where
  lastUpdateTime : t.lastUpdateTime.Representable
  lastMoveTime : t.lastMoveTime.Representable

structure ShardHandoverStats.WellFormed (t : ShardHandoverStats) : Prop where
  previousExecutorLastHeartbeatTime : t.previousExecutorLastHeartbeatTime.Representable
  handoverType : t.handoverType.Declared

structure AssignedState.WellFormed (t : AssignedState S) : Prop where
  assignedShards : Map.All ShardAssignment.WellFormed t.assignedShards
  shardHandoverStats : Map.All ShardHandoverStats.WellFormed t.shardHandoverStats
  lastUpdated : t.lastUpdated.Representable

def DrainedHost.WellFormed (t : DrainedHost S) : Prop := t.drainedAt.Representable

structure GetFullNamespaceStateResponse.WellFormed (t : GetFullNamespaceStateResponse S F) : Prop where
  executors : Map.All HeartbeatState.WellFormed t.executors
  shardStats : Map.All ShardStatistics.WellFormed t.shardStats
  shardAssignments : Map.All AssignedState.WellFormed t.shardAssignments
  drainedHosts : Map.All DrainedHost.WellFormed t.drainedHosts

def DrainHostsRequest.WellFormed (t : DrainHostsRequest S) : Prop := Slice.All DrainedHost.WellFormed t.hosts

/-- The same assignment with empty slices for those that are nil. -/
def ExecutorShardAssignment.nilAsEmpty (t : ExecutorShardAssignment S) : ExecutorShardAssignment S :=
  { t with assignedShards := Slice.nilAsEmpty t.assignedShards }

/-- The same response with empty slices for those that are nil. -/
def WatchNamespaceStateResponse.nilAsEmpty (t : WatchNamespaceStateResponse S) : WatchNamespaceStateResponse S where
  executors := some ((t.executors.getD []).map (Option.map ExecutorShardAssignment.nilAsEmpty))
  drainedShardKeys := Slice.nilAsEmpty t.drainedShardKeys
  assignmentRevision := t.assignmentRevision

section Scalars

theorem migrationMode_recovered {mode : Enum types.MigrationMode} (h : mode.Declared) :
    toShardDistributorMigrationMode (fromShardDistributorMigrationMode mode) = mode := by
  obtain ⟨value, rfl⟩ := h
  cases value <;> rfl

theorem executorStatus_recovered {status : Enum types.ExecutorStatus} (h : status.Declared) :
    toShardDistributorExecutorStatus (fromShardDistributorExecutorStatus status) = status := by
  obtain ⟨value, rfl⟩ := h
  cases value <;> rfl

theorem shardStatus_recovered {status : Enum types.ShardStatus} (h : status.Declared) :
    toShardDistributorShardStatus (fromShardDistributorShardStatus status) = status := by
  obtain ⟨value, rfl⟩ := h
  cases value <;> rfl

theorem assignmentStatus_recovered {status : Enum types.AssignmentStatus} (h : status.Declared) :
    toShardDistributorAssignmentStatus (fromShardDistributorAssignmentStatus status) = status := by
  obtain ⟨value, rfl⟩ := h
  cases value <;> rfl

theorem handoverType_recovered {handoverType : Enum types.HandoverType} (h : handoverType.Declared) :
    toHandoverType (fromHandoverType handoverType) = handoverType := by
  obtain ⟨value, rfl⟩ := h
  cases value <;> rfl

theorem timestampProto_unix (nanos : Int) :
    timestampProto (.unix 0 nanos) = ⟨nanos / 10 ^ 9, nanos % 10 ^ 9⟩ := by
  have hinstant : (ZonedTime.unix 0 nanos).instant - ZonedTime.unixEpoch = nanos := by
    simp [ZonedTime.unix]
  rw [timestampProto, hinstant]

/-- The zero time goes as nil, and any other one as the seconds and nanoseconds
that it is the sum of. -/
theorem time_recovered {t : ZonedTime} (h : t.Representable) :
    timestampToTimeVal (timeToTimestamp (some t)) = t := by
  rcases h with rfl | ⟨hlow, hhigh, hutc⟩
  · rfl
  · obtain ⟨instant, location⟩ := t
    obtain rfl : location = .utc := hutc
    by_cases hzero : instant = 0
    · rw [hzero]
      rfl
    · have hsent : timeToTimestamp (some ⟨instant, .utc⟩) =
          some ⟨(instant - ZonedTime.unixEpoch) / 10 ^ 9, (instant - ZonedTime.unixEpoch) % 10 ^ 9⟩ := by
        have hnot : ZonedTime.isZero ⟨instant, .utc⟩ = false := beq_false_of_ne hzero
        rw [timeToTimestamp, Option.bind_some, hnot, if_neg Bool.false_ne_true, unixNanoToTime, Option.map_some,
          timestampProto_unix, ZonedTime.unixNano, int64_of_fits hlow hhigh]
      rw [hsent, timestampToTimeVal, Option.elim_some, ZonedTime.unix, ZonedTime.utc, add_assoc,
        Int.ediv_mul_add_emod, add_sub_cancel]

theorem hostMetadata_recovered (t : Option (HostMetadata S)) :
    toShardDistributorHostMetadata (fromShardDistributorHostMetadata t) = t := by
  cases t <;> rfl

end Scalars

section Entries

theorem shardStatusReports_recovered [Inhabited F] {reports : Option (Map S (Option (ShardStatusReport F)))}
    (h : Map.All ShardStatusReport.WellFormed reports) :
    toShardDistributorShardStatusReports (fromShardDistributorShardStatusReports reports) = reports := by
  refine Recovers.map (fun report hreport => ?_) h
  simp only [Option.getD_some, shardStatus_recovered hreport]

theorem shardAssignments_recovered {assignments : Option (Map S (Option ShardAssignment))}
    (h : Map.All ShardAssignment.WellFormed assignments) :
    toShardDistributorShardAssignments (fromShardDistributorShardAssignments assignments) = assignments := by
  refine Recovers.map (fun assignment hassignment => ?_) h
  simp only [Option.getD_some, assignmentStatus_recovered hassignment]

theorem namespaceExecutorState_recovers [Inhabited S] :
    Recovers (fromShardDistributorNamespaceExecutorState (S := S)) toShardDistributorNamespaceExecutorState
      NamespaceExecutorState.WellFormed := by
  intro ex hex
  simp only [fromShardDistributorNamespaceExecutorState, toShardDistributorNamespaceExecutorState, Option.map_some,
    executorStatus_recovered hex.status, time_recovered hex.lastHeartbeat, hostMetadata_recovered]
  rw [Recovers.slice (fun sh hsh => ?_) hex.assignedShards]
  simp only [Option.getD_some, assignmentStatus_recovered hsh]

theorem heartbeatState_recovers [Inhabited F] :
    Recovers (fromShardDistributorHeartbeatState (S := S) (F := F)) toShardDistributorHeartbeatState
      HeartbeatState.WellFormed := by
  intro t ht
  simp only [fromShardDistributorHeartbeatState, toShardDistributorHeartbeatState, Option.map_some,
    time_recovered ht.lastHeartbeat, executorStatus_recovered ht.status,
    shardStatusReports_recovered ht.reportedShards]

theorem shardStatistics_recovers :
    Recovers (fromShardDistributorShardStatistics (F := F)) toShardDistributorShardStatistics
      ShardStatistics.WellFormed := by
  intro t ht
  simp only [fromShardDistributorShardStatistics, toShardDistributorShardStatistics, Option.map_some,
    time_recovered ht.lastUpdateTime, time_recovered ht.lastMoveTime]

theorem assignedState_recovers :
    Recovers (fromShardDistributorAssignedState (S := S)) toShardDistributorAssignedState
      AssignedState.WellFormed := by
  intro t ht
  simp only [fromShardDistributorAssignedState, toShardDistributorAssignedState, Option.map_some,
    shardAssignments_recovered ht.assignedShards, time_recovered ht.lastUpdated]
  rw [Recovers.map (fun statistics hstatistics => ?_) ht.shardHandoverStats]
  simp only [Option.getD_some, time_recovered hstatistics.previousExecutorLastHeartbeatTime,
    handoverType_recovered hstatistics.handoverType]

theorem drainedHost_recovers :
    Recovers (fromShardDistributorDrainedHost (S := S)) toShardDistributorDrainedHost DrainedHost.WellFormed := by
  intro t ht
  simp only [fromShardDistributorDrainedHost, toShardDistributorDrainedHost, Option.map_some, time_recovered ht]

end Entries

section Messages

theorem executorHeartbeatRequest_recovers [Inhabited F] :
    Recovers (fromShardDistributorExecutorHeartbeatRequest (S := S) (F := F))
      toShardDistributorExecutorHeartbeatRequest ExecutorHeartbeatRequest.WellFormed := by
  intro t ht
  simp only [fromShardDistributorExecutorHeartbeatRequest, toShardDistributorExecutorHeartbeatRequest,
    Option.map_some, executorStatus_recovered ht.status, shardStatusReports_recovered ht.shardStatusReports,
    hostMetadata_recovered]

theorem executorHeartbeatResponse_recovers :
    Recovers (fromShardDistributorExecutorHeartbeatResponse (S := S))
      toShardDistributorExecutorHeartbeatResponse ExecutorHeartbeatResponse.WellFormed := by
  intro t ht
  simp only [fromShardDistributorExecutorHeartbeatResponse, toShardDistributorExecutorHeartbeatResponse,
    Option.map_some, shardAssignments_recovered ht.shardAssignments, migrationMode_recovered ht.migrationMode]

theorem getNamespaceStateResponse_recovers [Inhabited S] :
    Recovers (fromShardDistributorGetNamespaceStateResponse (S := S))
      toShardDistributorGetNamespaceStateResponse GetNamespaceStateResponse.WellFormed := by
  intro t ht
  simp only [fromShardDistributorGetNamespaceStateResponse, toShardDistributorGetNamespaceStateResponse,
    Option.map_some, namespaceExecutorState_recovers.slice ht]

theorem getFullNamespaceStateResponse_recovers [Inhabited F] :
    Recovers (fromShardDistributorGetFullNamespaceStateResponse (S := S) (F := F))
      toShardDistributorGetFullNamespaceStateResponse GetFullNamespaceStateResponse.WellFormed := by
  intro t ht
  simp only [fromShardDistributorGetFullNamespaceStateResponse, toShardDistributorGetFullNamespaceStateResponse,
    Option.map_some, heartbeatState_recovers.map ht.executors, shardStatistics_recovers.map ht.shardStats,
    assignedState_recovers.map ht.shardAssignments, drainedHost_recovers.map ht.drainedHosts]

theorem drainHostsRequest_recovers :
    Recovers (fromShardDistributorDrainHostsRequest (S := S)) toShardDistributorDrainHostsRequest
      DrainHostsRequest.WellFormed := by
  intro t ht
  simp only [fromShardDistributorDrainHostsRequest, toShardDistributorDrainHostsRequest,
    fromShardDistributorDrainedHosts, toShardDistributorDrainedHosts, Option.map_some,
    drainedHost_recovers.slice ht]

/-- The slice of shards comes back empty where it was nil. -/
theorem executorShardAssignment_recovered [Inhabited S] {t : ExecutorShardAssignment S} (ht : t.WellFormed) :
    (toExecutorShardAssignment (fromExecutorShardAssignment (some t))).map ExecutorShardAssignment.nilAsEmpty =
      some t.nilAsEmpty := by
  simp only [fromExecutorShardAssignment, toExecutorShardAssignment, Option.map_some, Option.getD_some,
    ExecutorShardAssignment.nilAsEmpty, Slice.nilAsEmpty]
  rw [Recovers.entries (fun shard _ => ?_) (Slice.All.getD ht)]
  simp only [Option.getD_some]

/-- The slice of executors comes back nil where it was empty. -/
theorem watchNamespaceStateResponse_recovered [Inhabited S] {t : WatchNamespaceStateResponse S}
    (ht : t.WellFormed) :
    (toShardDistributorWatchNamespaceStateResponse
        (fromShardDistributorWatchNamespaceStateResponse (some t))).map WatchNamespaceStateResponse.nilAsEmpty =
      some t.nilAsEmpty := by
  have hexecutors : (((t.executors.getD []).map fromExecutorShardAssignment).map toExecutorShardAssignment).map
      (Option.map ExecutorShardAssignment.nilAsEmpty) =
        (t.executors.getD []).map (Option.map ExecutorShardAssignment.nilAsEmpty) := by
    rw [List.map_map, List.map_map]
    refine List.map_congr_left fun entry hentry => ?_
    obtain ⟨executor, rfl, hexecutor⟩ := Slice.All.getD ht entry hentry
    exact executorShardAssignment_recovered hexecutor
  simp only [fromShardDistributorWatchNamespaceStateResponse, toShardDistributorWatchNamespaceStateResponse,
    Option.map_some, WatchNamespaceStateResponse.nilAsEmpty, Slice.getD_map, Slice.getD_appended, hexecutors]

/-- Nothing is lost on the wire: mapping a message to its wire type and back
returns it, but for the nil and empty slices of a watch response. -/
theorem messages_recovered [Inhabited S] [Inhabited F] :
    (∀ t : Option (ExecutorHeartbeatRequest S F), (∀ request ∈ t, request.WellFormed) →
      toShardDistributorExecutorHeartbeatRequest (fromShardDistributorExecutorHeartbeatRequest t) = t) ∧
    (∀ t : Option (ExecutorHeartbeatResponse S), (∀ response ∈ t, response.WellFormed) →
      toShardDistributorExecutorHeartbeatResponse (fromShardDistributorExecutorHeartbeatResponse t) = t) ∧
    (∀ t : Option (WatchNamespaceStateResponse S), (∀ response ∈ t, response.WellFormed) →
      (toShardDistributorWatchNamespaceStateResponse (fromShardDistributorWatchNamespaceStateResponse t)).map
        WatchNamespaceStateResponse.nilAsEmpty = t.map WatchNamespaceStateResponse.nilAsEmpty) ∧
    (∀ t : Option (GetNamespaceStateResponse S), (∀ response ∈ t, response.WellFormed) →
      toShardDistributorGetNamespaceStateResponse (fromShardDistributorGetNamespaceStateResponse t) = t) ∧
    (∀ t : Option (GetFullNamespaceStateResponse S F), (∀ response ∈ t, response.WellFormed) →
      toShardDistributorGetFullNamespaceStateResponse (fromShardDistributorGetFullNamespaceStateResponse t) = t) ∧
    (∀ t : Option (DrainHostsRequest S), (∀ request ∈ t, request.WellFormed) →
      toShardDistributorDrainHostsRequest (fromShardDistributorDrainHostsRequest t) = t) := by
  refine ⟨fun t ht => ?_, fun t ht => ?_, fun t ht => ?_, fun t ht => ?_, fun t ht => ?_, fun t ht => ?_⟩
  · exact executorHeartbeatRequest_recovers.pointer rfl ht
  · exact executorHeartbeatResponse_recovers.pointer rfl ht
  · cases t with
    | none => rfl
    | some t => exact watchNamespaceStateResponse_recovered (ht t rfl)
  · exact getNamespaceStateResponse_recovers.pointer rfl ht
  · exact getFullNamespaceStateResponse_recovers.pointer rfl ht
  · exact drainHostsRequest_recovers.pointer rfl ht

end Messages

section Examples

/-- A second and a nanosecond after the epoch. -/
def afterEpoch : ZonedTime := ⟨ZonedTime.unixEpoch + 10 ^ 9 + 1, .utc⟩

def reportedShard : Option (Map String (Option (ShardStatusReport Int))) :=
  some (Map.ofList [("s", some ⟨.declared .done, 5⟩)])

def assignedShard : Option (Map String (Option ShardAssignment)) :=
  some (Map.ofList [("s", some ⟨.declared .ready⟩)])

def heartbeatRequest : ExecutorHeartbeatRequest String Int :=
  ⟨"n", "e", .declared .draining, reportedShard, some (Map.ofList [("zone", "z")]), some ⟨"h"⟩⟩

def heartbeatResponse : ExecutorHeartbeatResponse String := ⟨assignedShard, .declared .onboarded⟩

/-- One executor has a shard and the other has a nil slice of them. -/
def watchResponse : WatchNamespaceStateResponse String :=
  ⟨some [some ⟨"e", some [some ⟨"s"⟩], none⟩, some ⟨"f", none, none⟩], some ["t"], 7⟩

def namespaceState : GetNamespaceStateResponse String :=
  ⟨"n", some [some ⟨"e", .declared .active, afterEpoch, none, some [some ⟨"s", .declared .ready, 3⟩], none⟩]⟩

def drainedHost : DrainedHost String := ⟨"h", afterEpoch, "operator", "maintenance"⟩

def fullNamespaceState : GetFullNamespaceStateResponse String Int where
  ns := "n"
  executors := some (Map.ofList [("e", some ⟨afterEpoch, .declared .drained, reportedShard, none⟩)])
  shardStats := some (Map.ofList [("s", some ⟨2, afterEpoch, .zero⟩)])
  shardAssignments := some (Map.ofList [("e", some ⟨assignedShard,
    some (Map.ofList [("s", some ⟨afterEpoch, .declared .emergency⟩)]), afterEpoch, 3⟩)])
  drainedShards := some ["t"]
  drainedHosts := some (Map.ofList [("h", some drainedHost)])

theorem all_slice_singleton {α : Type} {P : α → Prop} {a : α} (h : P a) : Slice.All P (some [some a]) := by
  rintro _ ⟨⟩ entry hentry
  obtain rfl := List.mem_singleton.mp hentry
  exact ⟨a, rfl, h⟩

theorem all_map_singleton {α : Type} {P : α → Prop} {k : String} {a : α} (h : P a) :
    Map.All P (some (Map.ofList [(k, some a)])) := by
  rintro _ ⟨⟩ entry hentry
  obtain rfl := List.mem_singleton.mp hentry
  exact ⟨a, rfl, h⟩

theorem afterEpoch_representable : afterEpoch.Representable := by decide

theorem samples_recovered :
    toShardDistributorExecutorHeartbeatRequest
        (fromShardDistributorExecutorHeartbeatRequest (some heartbeatRequest)) = some heartbeatRequest ∧
    toShardDistributorExecutorHeartbeatResponse
        (fromShardDistributorExecutorHeartbeatResponse (some heartbeatResponse)) = some heartbeatResponse ∧
    (toShardDistributorWatchNamespaceStateResponse
        (fromShardDistributorWatchNamespaceStateResponse (some watchResponse))).map
      WatchNamespaceStateResponse.nilAsEmpty = some watchResponse.nilAsEmpty ∧
    toShardDistributorGetNamespaceStateResponse
        (fromShardDistributorGetNamespaceStateResponse (some namespaceState)) = some namespaceState ∧
    toShardDistributorGetFullNamespaceStateResponse
        (fromShardDistributorGetFullNamespaceStateResponse (some fullNamespaceState)) = some fullNamespaceState ∧
    toShardDistributorDrainHostsRequest
        (fromShardDistributorDrainHostsRequest (some ⟨"n", some [some drainedHost]⟩)) =
      some ⟨"n", some [some drainedHost]⟩ := by
  have hreported : Map.All ShardStatusReport.WellFormed reportedShard := all_map_singleton ⟨_, rfl⟩
  have hassigned : Map.All ShardAssignment.WellFormed assignedShard := all_map_singleton ⟨_, rfl⟩
  have htime := afterEpoch_representable
  obtain ⟨hrequest, hresponse, hwatch, hstate, hfull, hdrain⟩ := messages_recovered (S := String) (F := Int)
  refine ⟨hrequest _ ?_, hresponse _ ?_, hwatch _ ?_, hstate _ ?_, hfull _ ?_, hdrain _ ?_⟩
  · rintro _ ⟨⟩
    exact ⟨⟨_, rfl⟩, hreported⟩
  · rintro _ ⟨⟩
    exact ⟨hassigned, ⟨_, rfl⟩⟩
  · rintro _ ⟨⟩
    simp [WatchNamespaceStateResponse.WellFormed, watchResponse, Slice.All, ExecutorShardAssignment.WellFormed]
  · rintro _ ⟨⟩
    exact all_slice_singleton ⟨⟨_, rfl⟩, htime, all_slice_singleton ⟨_, rfl⟩⟩
  · rintro _ ⟨⟩
    refine ⟨all_map_singleton ⟨htime, ⟨_, rfl⟩, hreported⟩, all_map_singleton ⟨htime, .inl rfl⟩,
      all_map_singleton ⟨hassigned, all_map_singleton ⟨htime, ⟨_, rfl⟩⟩, htime⟩, all_map_singleton htime⟩
  · rintro _ ⟨⟩
    exact all_slice_singleton htime

end Examples

end mapper
