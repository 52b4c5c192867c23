import ShardManager.Leader.Effect
import ShardManager.Statistics.System

open golang etcd etcdkeys store types executorstore handler common

namespace executorstore

open etcdtypes (Value Encoding)

variable {F : Type} {pre ns executorID : String} {s s' : Store (Value F)}

theorem statisticsAt_of_get_eq (h : s'.get (statisticsKey pre ns executorID) = s.get (statisticsKey pre ns executorID)) :
    statisticsAt pre ns s' executorID = statisticsAt pre ns s executorID := by
  rw [statisticsKey] at h
  rw [statisticsAt, statisticsAt, h]

theorem lookup_statisticsAt_of_put {statistics : Map String (ShardStatistics F)} {revision : Int}
    (h : s.get (statisticsKey pre ns executorID) = some ⟨.statistics (etcdtypes.jsonObject statistics), revision⟩)
    (shardID : String) : (statisticsAt pre ns s executorID).lookup shardID = statistics.lookup shardID := by
  rw [statisticsKey] at h
  rw [statisticsAt, h]
  exact etcdtypes.lookup_ofList_jsonObject statistics shardID

theorem modRevision_of_assignedStateAt {record : AssignedState} (h : assignedStateAt pre ns s executorID = some record) :
    record.modRevision = s.modRevision (assignedStateKey pre ns executorID) := by
  unfold assignedStateAt at h
  cases hget : s.get (buildExecutorKey pre ns executorID .assignedState) with
  | none =>
    rw [hget] at h
    cases h
  | some kv =>
    rw [hget] at h
    change etcdtypes.getAssignedState kv = some record at h
    unfold etcdtypes.getAssignedState at h
    split at h
    · cases h
      rw [assignedStateKey, Store.modRevision, hget]
      rfl
    · cases h

/-- The assignments of a snapshot are the stored records. -/
theorem lookup_shardAssignments [Encoding F] {order : RangeOrder} {state : NamespaceState F}
    (h : getState pre ns order s = .ok state) (hid : SlashFree executorID) :
    state.shardAssignments.lookup executorID = assignedStateAt pre ns s executorID := by
  obtain ⟨data, hparse, hstate⟩ := bind_eq_ok_iff.mp h
  cases hstate
  rw [← (reads_of_parse (contains_executorKey executorID) hparse hid).assignedState, Map.lookup_filterMapValues]
  cases data.lookup executorID <;> rfl

/-- An update leaves the statistics of the others alone. -/
theorem get_recordShardStatisticsUpdate_of_ne [Float64 F] [DecidableEq F] {update : ExecutorShardStatistics F} {fate : Fate}
    {result : Except StoreError Unit}
    (h : recordShardStatisticsUpdate pre ns update.executorID update.statistics fate s = (result, s'))
    (hne : executorID ≠ update.executorID) :
    s'.get (statisticsKey pre ns executorID) = s.get (statisticsKey pre ns executorID) := by
  rcases recordShardStatisticsUpdate_cases h with ⟨rfl, -⟩ | ⟨-, happlied⟩ | ⟨-, happlied⟩
  · rfl
  · refine happlied.get_of_not_touches fun htouch => hne ?_
    exact (buildExecutorKey_inj (by trivial) (by trivial) (of_decide_eq_true (touches_delete_iff.mp htouch))).1
  · refine happlied.get_of_not_touches fun htouch => hne ?_
    exact (buildExecutorKey_inj (by trivial) (by trivial) (touches_put_iff.mp htouch)).1

/-- What a cleanup commits for one executor: everything but the given shards. -/
def CleanupOp (pre ns : String) (s : Store (Value F)) (shardIDs : List String) (op : Op (Value F)) : Prop :=
  ∃ executorID, (op = .delete (.key (statisticsKey pre ns executorID)) ∧
      ∀ shardID ∉ shardIDs, (statisticsAt pre ns s executorID).lookup shardID = none) ∨
    ∃ remaining : Map String (ShardStatistics F),
      op = .put (statisticsKey pre ns executorID) (.statistics (etcdtypes.jsonObject remaining)) ∧
      ∀ shardID ∉ shardIDs, remaining.lookup shardID = (statisticsAt pre ns s executorID).lookup shardID

theorem cleanupOp_of_deleteStatsOp [Float64 F] [DecidableEq F] {shardIDs : List String} {op : Op (Value F)}
    (h : deleteStatsOp pre ns shardIDs executorID (statisticsAt pre ns s executorID) = some op) :
    CleanupOp pre ns s shardIDs op := by
  have hkept : ∀ shardID ∉ shardIDs, ((statisticsAt pre ns s executorID).filterKeys fun shardID =>
      !decide (shardID ∈ shardIDs)).lookup shardID = (statisticsAt pre ns s executorID).lookup shardID := by
    intro shardID hnot
    rw [Map.lookup_filterKeys, decide_eq_false hnot]
    rfl
  dsimp only [deleteStatsOp] at h
  split at h
  · split at h
    · rename_i hnil
      cases h
      refine ⟨executorID, .inl ⟨rfl, fun shardID hnot => ?_⟩⟩
      rw [← hkept shardID hnot, Option.eq_none_iff_forall_not_mem]
      intro statistic hlookup
      have hmem := Map.mem_toList_iff.mpr hlookup
      rw [hnil] at hmem
      cases hmem
    · split at h
      · cases h
      · rename_i payload hmarshal
        cases h
        obtain rfl := marshalStatistics_eq_ok hmarshal
        exact ⟨executorID, .inr ⟨_, rfl, hkept⟩⟩
  · cases h

/-- A cleanup is computed from what it has read. -/
theorem cleanupOp_of_deleteShardStats [Float64 F] [DecidableEq F] [Encoding F] {order : RangeOrder} {maxEtcdTxnOps : Int}
    {shardIDs : List String} {guard : Guarded (Value F)} {call : CommitOps (Value F)}
    (h : deleteShardStats pre ns order maxEtcdTxnOps shardIDs guard s = .ok (.running call)) :
    (∀ op ∈ call.ops, CleanupOp pre ns s shardIDs op) ∧ call.extraOps = [] := by
  unfold deleteShardStats at h
  split at h
  · cases h
  · obtain ⟨parsedData, hparse, hcommit⟩ := bind_eq_ok_iff.mp h
    obtain ⟨hops, hextra, -⟩ := commitOps_running (Except.ok.inj hcommit)
    refine ⟨fun op hop => ?_, hextra⟩
    rw [hops] at hop
    obtain ⟨⟨executorID, executorData⟩, hentry, hop⟩ := List.mem_filterMap.mp hop
    have hlookup := RangeOrder.mem_range_iff.mp hentry
    have hid := slashFree_of_mem_parsed hparse (Map.mem_iff_exists_lookup.mpr ⟨_, hlookup⟩)
    have hreads := reads_of_parse (contains_executorKey executorID) hparse hid
    rw [hlookup, Option.getD_some] at hreads
    dsimp only at hop
    rw [hreads.statistics] at hop
    exact cleanupOp_of_deleteStatsOp hop

end executorstore

namespace handler

open etcdtypes (Value Encoding)

variable {F : Type} {pre executorID : String} {s s' : Store (Value F)} {request : ExecutorHeartbeatRequest F}

/-- A heartbeat that has an assignment has read the record and the statistics
of its executor. -/
theorem readExecutorState_assigned [Encoding F] {registry : namespaces.Registry} {executorState : ExecutorState F}
    {record : AssignedState} (h : readExecutorState pre registry request s = .ok executorState)
    (hrecord : executorState.assignment = some record) :
    SlashFree request.executorID ∧ assignedStateAt pre request.ns s request.executorID = some record ∧
      executorState.statistics = statisticsAt pre request.ns s request.executorID := by
  unfold readExecutorState at h
  split at h
  · cases h
  · split at h
    · rename_i state hstate
      cases h
      obtain ⟨hid, executorData, rfl, hreads⟩ := getExecutorState_eq_ok hstate
      exact ⟨hid, hreads.assignedState ▸ hrecord, hreads.statistics⟩
    · cases h
      cases hrecord
    · cases h

/-- Storing a heartbeat leaves all records and statistics alone. -/
theorem get_storeHeartbeat [Float64 F] [DecidableEq F] {order : RangeOrder} {heartbeatTime : Time}
    {executorState : ExecutorState F} {fate : Fate} {result : Except HeartbeatError Unit}
    (h : storeHeartbeat pre order request heartbeatTime executorState fate s = (result, s'))
    (hid : SlashFree executorID) {kt : ExecutorKeyType} (hkt : kt = .assignedState ∨ kt = .shardStatistics) :
    s'.get (buildExecutorKey pre request.ns executorID kt) = s.get (buildExecutorKey pre request.ns executorID kt) := by
  have hknown : kt.Known := by rcases hkt with rfl | rfl <;> trivial
  have hother : ∀ {kt' : ExecutorKeyType}, buildExecutorKey pre request.ns executorID kt =
      buildExecutorKey pre request.ns request.executorID kt' → kt'.Known → kt' ≠ .assignedState →
      kt' ≠ .shardStatistics → False := by
    intro kt' heq hknown' hrecord hstatistics
    obtain rfl := (buildExecutorKey_inj hknown hknown' heq).2
    exact hkt.elim hrecord hstatistics
  rcases storeHeartbeat_cases h with ⟨rfl, -⟩ | ⟨unchanged, reportedShards, -, happlied⟩
  · rfl
  refine get_of_heartbeat happlied
    (executorKey_ne_version executorID kt) fun value hput => ?_
  rcases put_mem_heartbeatOps hput with
    ⟨name, text, -, hkey, -⟩ | ⟨hkey, -⟩ | ⟨hkey, -⟩ | ⟨hkey, -⟩ | ⟨host, hkey, -⟩
  · exact buildExecutorKey_ne_buildMetadataKey hid hknown _ _ hkey
  all_goals exact hother hkey (by trivial) nofun nofun

end handler

namespace leader

variable {F : Type} [Float64 F] {choices : process.Choices} {cfg : process.Config F} {state : NamespaceState F}
  {request : AssignShardsRequest F}

/-- An update carries the statistics of a shard over, if the snapshot has both
an owner and a measurement of it. -/
theorem lookup_statisticsUpdates {update : ExecutorShardStatistics F}
    (h : update ∈ statisticsUpdates choices cfg state request) {record : AssignedState} {shardID : String}
    (hlookup : request.newState.shardAssignments.lookup update.executorID = some record)
    (hmem : shardID ∈ record.assignedShards) (howner : ∃ executorID, state.Stores executorID shardID)
    {statistic : ShardStatistics F} (hstatistic : state.shardStats.lookup shardID = some statistic) :
    ∃ carried, update.statistics.lookup shardID = some carried ∧ carried.lastUpdateTime = statistic.lastUpdateTime := by
  unfold statisticsUpdates loadbalancer.prepareAssignmentStatistics at h
  cases hmode : cfg.loadBalancing.mode <;> rw [hmode] at h
  case greedy =>
    obtain ⟨-, hupdate⟩ := greedy.mem_buildStatisticsUpdates h
    obtain ⟨assignment, hassignment⟩ := Map.mem_iff_exists_lookup.mp hmem
    have howned : shardID ∈ state.shardOwners choices.order := NamespaceState.mem_shardOwners.mpr howner
    obtain ⟨previousOwnerID, hprevious⟩ := Map.mem_iff_exists_lookup.mp howned
    refine ⟨greedy.movedStatistics (state.shardOwners choices.order) state.shardStats choices.assignmentTime
      update.executorID shardID, ?_, ?_⟩
    · rw [hupdate shardID, hlookup, Option.getD_some, hassignment]
      rfl
    · rw [greedy.movedStatistics, hprevious, hstatistic]
      dsimp only
      split <;> rfl
  all_goals cases h

end leader
