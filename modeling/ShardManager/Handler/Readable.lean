import ShardManager.Handler.Heartbeat

open golang etcd etcdkeys store types executorstore common

namespace handler

open etcdtypes (Value Encoding)

variable {F : Type} [Float64 F] [DecidableEq F] {pre : String} {order : RangeOrder}
  {request : ExecutorHeartbeatRequest F} {s s' : Store (Value F)}

section Territory

omit [Float64 F] [DecidableEq F] in
theorem executorOwns_key {ns executorID : String} (kt : ExecutorKeyType) :
    ExecutorOwns pre ns executorID (buildExecutorKey pre ns executorID kt) :=
  .inl (hasPrefix_append _ _)

omit [Float64 F] [DecidableEq F] in
theorem executorOwns_metadataKey {ns executorID : String} (name : String) :
    ExecutorOwns pre ns executorID (buildMetadataKey pre ns executorID name) := by
  refine .inl ?_
  simp [hasPrefix_iff, buildMetadataKey, buildExecutorKey]

omit [Float64 F] [DecidableEq F] in
/-- A heartbeat writes keys of its executor, and the version. -/
theorem heartbeatOps_within_executor {ns executorID : String} {heartbeat : HeartbeatState F} {reportedShards : Value F}
    {unchanged : Bool} :
    ∀ op ∈ (if unchanged then heartbeatOps pre ns order executorID heartbeat reportedShards
        else heartbeatOps pre ns order executorID heartbeat reportedShards ++ [touchAssignmentVersion pre ns]),
      op.Within (ExecutorOwns pre ns executorID) := by
  intro op hop
  rcases mem_heartbeatOps_or_touch hop with hop | rfl
  · obtain ⟨key, value, rfl⟩ := exists_put_of_mem_heartbeatOps hop
    rcases put_mem_heartbeatOps hop with ⟨name, text, -, rfl, -⟩ | ⟨rfl, -⟩ | ⟨rfl, -⟩ | ⟨rfl, -⟩ | ⟨host, rfl, -⟩
    · exact executorOwns_metadataKey name
    all_goals exact executorOwns_key _
  · exact .inr rfl

omit [DecidableEq F] in
/-- What a heartbeat of an executor with a proper identifier puts can be read. -/
theorem heartbeat_put_fits {ns executorID : String} (hid : SlashFree executorID) {heartbeat : HeartbeatState F}
    {reportedShards : Value F} (hreports : marshalReports heartbeat.reportedShards = .ok reportedShards)
    {unchanged : Bool} {key : String} {value : Value F}
    (hput : Op.put key value ∈ if unchanged then heartbeatOps pre ns order executorID heartbeat reportedShards
      else heartbeatOps pre ns order executorID heartbeat reportedShards ++ [touchAssignmentVersion pre ns])
    (hkey : hasPrefix key (buildExecutorsPrefix pre ns) = true) :
    ∃ e kt, parseExecutorKey pre ns key = .ok (e, kt) ∧ fits kt value = true := by
  rcases mem_heartbeatOps_or_touch hput with hput | hput
  · rcases put_mem_heartbeatOps hput with
      ⟨name, text, -, rfl, rfl⟩ | ⟨rfl, rfl⟩ | ⟨rfl, rfl⟩ | ⟨rfl, rfl⟩ | ⟨host, rfl, rfl, -⟩
    · exact ⟨executorID, .metadata, parseExecutorKey_buildMetadataKey hid name, rfl⟩
    · exact ⟨executorID, .heartbeat, parseExecutorKey_buildExecutorKey hid trivial, rfl⟩
    · exact ⟨executorID, .status, parseExecutorKey_buildExecutorKey hid trivial, rfl⟩
    · refine ⟨executorID, .reportedShards, parseExecutorKey_buildExecutorKey hid trivial, ?_⟩
      unfold marshalReports at hreports
      split at hreports
      · cases hreports
        rfl
      · cases hreports
    · exact ⟨executorID, .hostMetadata, parseExecutorKey_buildExecutorKey hid trivial, rfl⟩
  · rw [touchAssignmentVersion, Op.put.injEq] at hput
    exact absurd hput.1 (assignmentVersionKey_ne_of_dir "executors/" (by decide) hkey)

end Territory

/-- The store after the parts of a heartbeat that write: the namespace stays
readable, the executor is read with what was recorded, and the others as
before. -/
structure Recorded [Encoding F] (pre ns executorID : String) (heartbeatTime : Time) (status : ExecutorStatus)
    (s s' : Store (Value F)) : Prop where
  decodes : ∀ entry ∈ executorEntries pre ns s', Decodes pre ns entry
  time : ∃ kv, s'.get (buildExecutorKey pre ns executorID .heartbeat) = some kv ∧ kv.value = .time heartbeatTime
  status : ∃ kv, s'.get (buildExecutorKey pre ns executorID .status) = some kv ∧ kv.value = .status status
  others : ∀ other, other ≠ executorID → storedExecutor pre ns s' other = storedExecutor pre ns s other

section Parts

variable [Encoding F] {heartbeatTime : Time} {executorState : ExecutorState F}

theorem recorded_of_storeHeartbeat (hid : SlashFree request.executorID)
    (hs : ∀ entry ∈ executorEntries pre request.ns s, Decodes pre request.ns entry) {fate : Fate}
    (h : storeHeartbeat pre order request heartbeatTime executorState fate s = (.ok (), s')) :
    Recorded pre request.ns request.executorID heartbeatTime request.status s s' := by
  rcases storeHeartbeat_cases h with ⟨-, err, hresult⟩ | ⟨unchanged, reportedShards, hreports, happlied⟩
  · cases hresult
  have hput : ∀ {key value}, Op.put key value ∈ heartbeatOps pre request.ns order request.executorID
      (newHeartbeat request heartbeatTime executorState) reportedShards →
      ∃ kv, s'.get key = some kv ∧ kv.value = value := by
    intro key value hmem
    refine ⟨_, happlied.get_of_put ?_, rfl⟩
    split
    · exact hmem
    · exact List.mem_append_left _ hmem
  refine ⟨?_, hput (by simp [heartbeatOps, newHeartbeat]), hput (by simp [heartbeatOps, newHeartbeat]), ?_⟩
  · exact decodes_of_applied happlied (fun key value hput hkey => heartbeat_put_fits hid hreports hput hkey) hs
  · intro other hne
    exact storedExecutor_of_applied happlied heartbeatOps_within_executor
      fun key hkey => not_executorOwns_of_isOf hid hne hkey

/-- Statistics stored afterwards leave it at that. -/
theorem Recorded.recordShardStatistics [ExpFloat64 F] (hid : SlashFree request.executorID) {s'' : Store (Value F)}
    (h : Recorded pre request.ns request.executorID heartbeatTime request.status s s') {cfg : Config}
    {assignedState : Option AssignedState} {previousStats : Map String (ShardStatistics F)} {now : Time} {fate : Fate}
    (hstore : handler.recordShardStatistics pre cfg order request assignedState previousStats now fate s' = s'') :
    Recorded pre request.ns request.executorID heartbeatTime request.status s s'' := by
  rcases recordShardStatistics_cases hstore with rfl | ⟨assigned, updatedStats, -, -, -, happlied⟩
  · exact h
  have hget : ∀ kt : ExecutorKeyType, kt.Known → kt ≠ .shardStatistics →
      s''.get (buildExecutorKey pre request.ns request.executorID kt) =
        s'.get (buildExecutorKey pre request.ns request.executorID kt) := by
    intro kt hkt hne
    refine happlied.get_of_not_touches fun htouch => hne ?_
    exact (buildExecutorKey_inj hkt (by trivial) (touches_put_iff.mp htouch)).2
  refine ⟨?_, ?_, ?_, ?_⟩
  · refine decodes_of_applied happlied ?_ h.decodes
    intro key value hput _
    rw [List.mem_singleton, Op.put.injEq] at hput
    obtain ⟨rfl, rfl⟩ := hput
    exact ⟨request.executorID, .shardStatistics, parseExecutorKey_buildExecutorKey hid trivial, rfl⟩
  · rw [hget .heartbeat trivial nofun]
    exact h.time
  · rw [hget .status trivial nofun]
    exact h.status
  · intro other hne
    rw [← h.others other hne]
    refine storedExecutor_of_applied happlied (List.forall_mem_singleton.mpr ?_)
      fun key hkey => not_executorOwns_of_isOf hid hne hkey
    exact executorOwns_key .shardStatistics

theorem heartbeat_recorded [ExpFloat64 F] {registry : namespaces.Registry} {cfg : Config} {fate statisticsFate : Fate}
    {response : ExecutorHeartbeatResponse} (hid : SlashFree request.executorID)
    (hs : ∀ entry ∈ executorEntries pre request.ns s, Decodes pre request.ns entry)
    (h : heartbeat pre registry cfg order request heartbeatTime fate statisticsFate s = (.ok response, s')) :
    Recorded pre request.ns request.executorID heartbeatTime request.status s s' := by
  unfold heartbeat at h
  split at h
  · cases h
  · split at h
    · cases h
    · rename_i hrecord
      cases h
      exact (recorded_of_storeHeartbeat hid hs hrecord).recordShardStatistics hid rfl

end Parts

/-- A heartbeat has not broken its namespace: both reads succeed, the executor
has an entry with the recorded time and status, and the entries of the others
are the same. -/
structure Unbroken [Encoding F] (pre : String) (request : ExecutorHeartbeatRequest F) (heartbeatTime : Time)
    (s s' : Store (Value F)) : Prop where
  getState : ∀ order, ∃ state, getState pre request.ns order s' = .ok state
  getAssignmentState : ∃ state, getAssignmentState pre request.ns s' = .ok state
  recorded : ∀ order state, executorstore.getState pre request.ns order s' = .ok state →
    ∃ heartbeat, state.executors.lookup request.executorID = some heartbeat ∧
      heartbeat.lastHeartbeat = heartbeatTime ∧ heartbeat.status = request.status
  others : ∀ order order' state state', executorstore.getState pre request.ns order s = .ok state →
    executorstore.getState pre request.ns order' s' = .ok state' → ∀ other, other ≠ request.executorID →
      state'.executors.lookup other = state.executors.lookup other ∧
      state'.executorMetadata.lookup other = state.executorMetadata.lookup other ∧
      state'.shardAssignments.lookup other = state.shardAssignments.lookup other

omit [Float64 F] [DecidableEq F] in
theorem Recorded.unbroken [Encoding F] (hid : SlashFree request.executorID) {heartbeatTime : Time}
    (h : Recorded pre request.ns request.executorID heartbeatTime request.status s s') :
    Unbroken pre request heartbeatTime s s' := by
  refine ⟨fun order => getState_isOk_iff.mpr h.decodes, getAssignmentState_isOk h.decodes, ?_, ?_⟩
  · intro order state hstate
    obtain ⟨timeKV, htime, htimeValue⟩ := h.time
    obtain ⟨statusKV, hstatus, hstatusValue⟩ := h.status
    have hread : ∃ executorData, storedExecutor pre request.ns s' request.executorID = some executorData ∧
        Reads pre request.ns s' request.executorID executorData := by
      refine exists_storedExecutor h.decodes hid ?_ htime
      trivial
    obtain ⟨executorData, hstored, hreads⟩ := hread
    refine ⟨heartbeatFromParsed executorData, ?_, ?_, ?_⟩
    · rw [(getState_entry hstate request.executorID).1, hstored]
      rfl
    · refine hreads.lastHeartbeat.trans ?_
      rw [lastHeartbeatAt, htime, Option.map_some, Option.getD_some, htimeValue]
      rfl
    · refine hreads.status.trans ?_
      rw [statusAt, hstatus, Option.map_some, Option.getD_some, hstatusValue]
      rfl
  · intro order order' state state' hstate hstate' other hne
    obtain ⟨hexecutors, hmetadata, hassignments⟩ := getState_entry hstate other
    obtain ⟨hexecutors', hmetadata', hassignments'⟩ := getState_entry hstate' other
    rw [hexecutors, hmetadata, hassignments, hexecutors', hmetadata', hassignments', h.others other hne]
    exact ⟨rfl, rfl, rfl⟩

/-- A heartbeat that returns without error leaves its namespace unbroken exactly
if its executor ID is a single path segment. Nothing else about the request
matters: not its metadata, not its reports. -/
theorem heartbeat_unbroken_iff_slashFree [Encoding F] [ExpFloat64 F] (pre : String) (registry : namespaces.Registry)
    (cfg : Config) (order : RangeOrder) (request : ExecutorHeartbeatRequest F) (heartbeatTime : Time)
    (fate statisticsFate : Fate) (s s' : Store (Value F)) (response : ExecutorHeartbeatResponse)
    (hstate : ∃ order state, getState pre request.ns order s = .ok state)
    (h : heartbeat pre registry cfg order request heartbeatTime fate statisticsFate s = (.ok response, s')) :
    Unbroken pre request heartbeatTime s s' ↔ SlashFree request.executorID := by
  obtain ⟨readOrder, state, hread⟩ := hstate
  constructor
  · intro hunbroken
    obtain ⟨state', hread'⟩ := hunbroken.getState readOrder
    obtain ⟨heartbeat, hlookup, -⟩ := hunbroken.recorded readOrder state' hread'
    obtain ⟨data, hparse, hdata⟩ := bind_eq_ok_iff.mp hread'
    rw [(getState_entry hread' _).1, storedExecutor, ← lookup_parseExecutorKVs hparse,
      Option.map_eq_some_iff] at hlookup
    obtain ⟨executorData, hlookup, -⟩ := hlookup
    exact slashFree_of_mem_parsed hparse (Map.mem_iff_exists_lookup.mpr ⟨_, hlookup⟩)
  · intro hid
    have hdecodes : ∀ entry ∈ executorEntries pre request.ns s, Decodes pre request.ns entry :=
      getState_isOk_iff.mp ⟨state, hread⟩
    exact (heartbeat_recorded hid hdecodes h).unbroken hid

section Examples

/-- A heartbeat that is delivered. -/
def delivered (request : ExecutorHeartbeatRequest ExactFloat) (heartbeatTime : Time) (s : Store (Value ExactFloat)) :
    Except HeartbeatError ExecutorHeartbeatResponse × Store (Value ExactFloat) :=
  heartbeat "shards" exampleRegistry exampleConfig .stored request heartbeatTime .delivered .delivered s

/-- The store after one executor has sent its first heartbeat. -/
def oneExecutor : Store (Value ExactFloat) := (delivered (requestOf "a@1" (utf8 "a")) 10 .empty).2

theorem secondExecutor_unbroken : ∃ response s',
    heartbeat "shards" exampleRegistry exampleConfig .stored (requestOf "b@2" (utf8 "b")) 20 .delivered .delivered
      oneExecutor = (.ok response, s') ∧
    Unbroken "shards" (requestOf "b@2" (utf8 "b")) 20 oneExecutor s' := by
  have hrun : ((getState "shards" "ns" .stored oneExecutor).isOk &&
      (delivered (requestOf "b@2" (utf8 "b")) 20 oneExecutor).1.isOk) = true := by decide +kernel
  obtain ⟨hstate, hok⟩ := (Bool.and_eq_true_iff).mp hrun
  obtain ⟨state, hstate⟩ := exists_ok_of_isOk hstate
  rcases hcall : delivered (requestOf "b@2" (utf8 "b")) 20 oneExecutor with ⟨result, s'⟩
  rw [hcall] at hok
  obtain ⟨response, rfl⟩ := exists_ok_of_isOk hok
  refine ⟨response, s', hcall, ?_⟩
  exact (heartbeat_unbroken_iff_slashFree "shards" exampleRegistry exampleConfig .stored
    (requestOf "b@2" (utf8 "b")) 20 .delivered .delivered oneExecutor s' response ⟨.stored, state, hstate⟩ hcall).mpr
    (by decide)

/-- The call returned without error, and then both reads of the namespace fail. -/
def breaksReads : Except HeartbeatError ExecutorHeartbeatResponse × Store (Value ExactFloat) → Bool
  | (.ok _, s) => !(getState "shards" "ns" .stored s).isOk && !(getAssignmentState "shards" "ns" s).isOk
  | (.error _, _) => false

/-- In an empty store, an executor that calls itself `b/2` gets its heartbeat
accepted, and from then on the namespace cannot be read. -/
theorem slashedExecutor_breaks_namespace :
    (∃ state, getState "shards" "ns" .stored (.empty : Store (Value ExactFloat)) = .ok state) ∧
    (∃ state, getAssignmentState "shards" "ns" (.empty : Store (Value ExactFloat)) = .ok state) ∧
    ∃ response s', heartbeat "shards" exampleRegistry exampleConfig .stored (requestOf "b/2" (utf8 "b")) 20
        .delivered .delivered .empty = (.ok response, s') ∧
      (∀ state, getState "shards" "ns" .stored s' ≠ .ok state) ∧
      ∀ state, getAssignmentState "shards" "ns" s' ≠ .ok state := by
  refine ⟨⟨_, rfl⟩, ⟨_, rfl⟩, ?_⟩
  have hrun : breaksReads (delivered (requestOf "b/2" (utf8 "b")) 20 .empty) = true := by decide +kernel
  rcases hcall : delivered (requestOf "b/2" (utf8 "b")) 20 .empty with ⟨result, s'⟩
  rw [hcall] at hrun
  cases result with
  | error err => cases hrun
  | ok response =>
    obtain ⟨hstate, hassignment⟩ := (Bool.and_eq_true_iff).mp hrun
    refine ⟨response, s', hcall, ?_, ?_⟩
    · intro state h
      rw [h] at hstate
      cases hstate
    · intro state h
      rw [h] at hassignment
      cases hassignment

end Examples

end handler
