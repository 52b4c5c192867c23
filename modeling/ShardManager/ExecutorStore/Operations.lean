import ShardManager.ExecutorStore.CommitOps
import ShardManager.ExecutorStore.Read

open golang etcd etcdkeys store types common

namespace executorstore

open etcdtypes (Value Encoding jsonObject)

variable {F : Type}

/-- An error of a store operation. A version conflict can be told apart. -/
structure StoreError where
  message : String
  isVersionConflict : Bool
deriving DecidableEq, Repr

def StoreError.other (message : String) : StoreError := ⟨message, false⟩

section Model

variable (pre ns : String)

section Heartbeat

variable [Float64 F] [DecidableEq F]

/-- `json.Marshal` of reports fails on a load that is not a number. -/
def marshalReports (reports : Map String (Option (ShardStatusReport F))) : Except String (Value F) :=
  if reports.toList.all fun (_, report) =>
      match report with
      | some report => Float64.isFinite report.shardLoad
      | none => true
    then .ok (.reportedShards (jsonObject reports))
  else .error "json: unsupported value"

/-- The keys a heartbeat writes. -/
def heartbeatOps (order : RangeOrder) (executorID : String) (request : HeartbeatState F)
    (reportedShards : Value F) : List (Op (Value F)) :=
  [.put (buildExecutorKey pre ns executorID .heartbeat) (.time request.lastHeartbeat),
    .put (buildExecutorKey pre ns executorID .status) (.status request.status),
    .put (buildExecutorKey pre ns executorID .reportedShards) reportedShards] ++
  (order.range "RecordHeartbeat" request.metadata).map
    (fun (key, value) => .put (buildMetadataKey pre ns executorID key) (.text value)) ++
  match request.hostMetadata with
  | some host => [.put (buildExecutorKey pre ns executorID .hostMetadata) (.hostMetadata host)]
  | none => []

/-- Holds when no metadata value changes. A missing key fails the comparison. -/
def metadataUnchanged (order : RangeOrder) (executorID : String) (request : HeartbeatState F) :
    List (Cmp (Value F)) :=
  (order.range "RecordHeartbeat/unchanged" request.metadata).map
    fun (key, value) => .value (buildMetadataKey pre ns executorID key) (.text value)

def recordHeartbeat (order : RangeOrder) (executorID : String) (request : HeartbeatState F) (fate : Fate)
    (s : Store (Value F)) : Except StoreError Unit × Store (Value F) :=
  match marshalReports request.reportedShards with
  | .error message => (.error (.other ("marshal reported shards: " ++ message)), s)
  | .ok reportedShards =>
    let ops := heartbeatOps pre ns order executorID request reportedShards
    match (Txn.flat (metadataUnchanged pre ns order executorID request) ops
        (ops ++ [touchAssignmentVersion pre ns])).send fate s with
    | (.error cause, s) => (.error (.other ("record heartbeat: " ++ cause.message)), s)
    | (.ok _, s) => (.ok (), s)

end Heartbeat

section Statistics

variable [Float64 F] [DecidableEq F]

def statisticsKey (executorID : String) : String :=
  buildExecutorKey pre ns executorID .shardStatistics

def marshalStatistics (statistics : Map String (ShardStatistics F)) : Except String (Value F) :=
  if statistics.toList.all fun (_, stat) => Float64.isFinite stat.smoothedLoad
    then .ok (.statistics (jsonObject statistics))
  else .error "json: unsupported value"

/-- Persists statistics if the assignment has not changed since it was read. -/
def recordShardStatistics (executorID : String) (assignmentModRevision : Int)
    (statistics : Map String (ShardStatistics F)) (fate : Fate) (s : Store (Value F)) :
    Except StoreError Unit × Store (Value F) :=
  match marshalStatistics statistics with
  | .error message => (.error (.other ("marshal executor shard statistics: " ++ message)), s)
  | .ok payload =>
    match (Txn.flat [.modRevision (assignedStateKey pre ns executorID) assignmentModRevision]
        [.put (statisticsKey pre ns executorID) payload] []).send fate s with
    | (.error cause, s) => (.error (.other ("put executor shard statistics: " ++ cause.message)), s)
    | (.ok response, s) =>
      if response.succeeded then (.ok (), s)
      else (.error ⟨"version conflict: executor assignment changed", true⟩, s)

/-- One update of `RecordShardStatisticsBatch`, which joins the errors and goes
on with the next one. -/
def recordShardStatisticsUpdate (executorID : String) (statistics : Map String (ShardStatistics F))
    (fate : Fate) (s : Store (Value F)) : Except StoreError Unit × Store (Value F) :=
  if statistics.toList = [] then
    match (Txn.flat [] [.delete (.key (statisticsKey pre ns executorID))] []).send fate s with
    | (.error cause, s) => (.error (.other
        s!"failed to delete shard statistics for executor {executorID}: {cause.message}"), s)
    | (.ok _, s) => (.ok (), s)
  else match marshalStatistics statistics with
    | .error message => (.error (.other
        s!"failed to marshal shard statistics for executor {executorID}: {message}"), s)
    | .ok payload =>
      match (Txn.flat [] [.put (statisticsKey pre ns executorID) payload] []).send fate s with
      | (.error cause, s) => (.error (.other
          s!"failed to put shard statistics for executor {executorID}: {cause.message}"), s)
      | (.ok _, s) => (.ok (), s)

/-- What cleaning up the statistics of one executor writes, if anything. -/
def deleteStatsOp (toDelete : List String) (executorID : String) (statistics : Map String (ShardStatistics F)) :
    Option (Op (Value F)) :=
  if statistics.toList.any fun (shardID, _) => decide (shardID ∈ toDelete) then
    let remaining := statistics.filterKeys fun shardID => !decide (shardID ∈ toDelete)
    if remaining.toList = [] then some (.delete (.key (statisticsKey pre ns executorID)))
    else match marshalStatistics remaining with
      -- Logged and skipped.
      | .error _ => none
      | .ok payload => some (.put (statisticsKey pre ns executorID) payload)
  else none

variable [Encoding F]

/-- Deletes the statistics of shards that are gone, computed from one read. -/
def deleteShardStats (order : RangeOrder) (maxEtcdTxnOps : Int) (shardIDs : List String)
    (guard : Guarded (Value F)) (s : Store (Value F)) : Except String (Progress (Value F)) :=
  if shardIDs = [] then .ok (.returned (.ok []))
  else do
    let parsedData ← parseExecutorKVs pre ns (s.range (.withPrefix (buildExecutorsPrefix pre ns)))
    let ops := (order.range "DeleteShardStats" parsedData).filterMap fun (executorID, executorData) =>
      deleteStatsOp pre ns shardIDs executorID executorData.statistics
    pure (commitOps maxEtcdTxnOps ops guard [])

end Statistics

/-- Commits operations that spectators can see, the version with every batch. -/
def commitAssignmentOps (maxEtcdTxnOps : Int) (ops : List (Op (Value F))) (guard : Guarded (Value F)) :
    Progress (Value F) :=
  commitOps maxEtcdTxnOps ops guard [touchAssignmentVersion pre ns]

def deleteExecutors (maxEtcdTxnOps : Int) (executorIDs : List String) (guard : Guarded (Value F)) :
    Progress (Value F) :=
  if executorIDs = [] then .returned (.ok [])
  else commitAssignmentOps pre ns maxEtcdTxnOps
    (executorIDs.map fun executorID => .delete (.withPrefix (buildExecutorIDPrefix pre ns executorID))) guard

/-- Every shard ID is validated before anything is written. -/
def validateShardIDs (shardIDs : List String) : Except String Unit :=
  shardIDs.forM validateShardID

def drainShards (maxEtcdTxnOps : Int) (shardIDs : List String) : Except String (Progress (Value F)) := do
  validateShardIDs shardIDs
  pure (commitAssignmentOps pre ns maxEtcdTxnOps
    (shardIDs.map fun shardID => .put (buildDrainedShardKey pre ns shardID) (.text "")) nopGuard)

def undrainShards (maxEtcdTxnOps : Int) (shardIDs : List String) : Except String (Progress (Value F)) := do
  validateShardIDs shardIDs
  pure (commitAssignmentOps pre ns maxEtcdTxnOps
    (shardIDs.map fun shardID => .delete (.key (buildDrainedShardKey pre ns shardID))) nopGuard)

/-- Rejects unusable hostnames and keeps the first occurrence of each host. -/
def validateDrainedHosts (hosts : List DrainedHost) (now : Time) : Except String (Map String DrainedHost) :=
  hosts.foldlM (fun validated host => do
    hostname.validate host.hostname
    if host.hostname ∈ validated then pure validated
    else pure (validated.insert host.hostname
      { host with drainedAt := if Time.isZero host.drainedAt then now else host.drainedAt })) ∅

/-- Drains the hosts that one read does not show as drained yet. -/
def drainHosts (order : RangeOrder) (maxEtcdTxnOps : Int) (hosts : List DrainedHost) (now : Time)
    (s : Store (Value F)) : Except String (Progress (Value F)) := do
  let validated ← validateDrainedHosts hosts now
  let existing := parseDrainedHostKVs pre ns (s.range (.withPrefix (buildDrainedHostsPrefix pre ns)))
  let ops := (order.range "DrainHosts" validated).filterMap fun (hostname, host) =>
    if hostname ∈ existing then none
    else some (.put (buildDrainedHostKey pre ns hostname) (.drainedHost host))
  pure (commitOps maxEtcdTxnOps ops nopGuard [])

def undrainHosts (maxEtcdTxnOps : Int) (hostnames : List String) : Except String (Progress (Value F)) := do
  hostnames.forM hostname.validate
  pure (commitOps maxEtcdTxnOps
    (hostnames.map fun hostname => .delete (.key (buildDrainedHostKey pre ns hostname))) nopGuard [])

/-- Deletes everything under the namespace, the leader key included, and moves
the assignment version. -/
def resetNamespace [DecidableEq F] (fate : Fate) (s : Store (Value F)) :
    Except StoreError Unit × Store (Value F) :=
  match (Txn.flat [] [.delete (.withPrefix (buildNamespacePrefix pre ns)), touchAssignmentVersion pre ns]
      []).send fate s with
  | (.error cause, s) => (.error (.other
      s!"delete namespace prefix {quote (buildNamespacePrefix pre ns)}: {cause.message}"), s)
  | (.ok _, s) => (.ok (), s)

end Model

section Spec

variable {pre ns : String} {s s' : Store (Value F)}

/-- What a heartbeat writes: its own keys and metadata, and nothing but those. -/
theorem put_mem_heartbeatOps {order : RangeOrder} {executorID : String} {request : HeartbeatState F}
    {reportedShards : Value F} {key : String} {value : Value F}
    (h : Op.put key value ∈ heartbeatOps pre ns order executorID request reportedShards) :
    (∃ name text, request.metadata.lookup name = some text ∧
      key = buildMetadataKey pre ns executorID name ∧ value = .text text) ∨
    key = buildExecutorKey pre ns executorID .heartbeat ∧ value = .time request.lastHeartbeat ∨
    key = buildExecutorKey pre ns executorID .status ∧ value = .status request.status ∨
    key = buildExecutorKey pre ns executorID .reportedShards ∧ value = reportedShards ∨
    ∃ host, key = buildExecutorKey pre ns executorID .hostMetadata ∧ value = .hostMetadata host ∧
      request.hostMetadata = some host := by
  unfold heartbeatOps at h
  rcases List.mem_append.mp h with h | h
  · rcases List.mem_append.mp h with h | h
    · simp only [List.mem_cons, Op.put.injEq, List.not_mem_nil, or_false] at h
      rcases h with h | h | h
      · exact .inr (.inl h)
      · exact .inr (.inr (.inl h))
      · exact .inr (.inr (.inr (.inl h)))
    · obtain ⟨⟨name, text⟩, hentry, heq⟩ := List.mem_map.mp h
      cases heq
      exact .inl ⟨name, text, RangeOrder.mem_range_iff.mp hentry, rfl, rfl⟩
  · split at h
    · rename_i host hhost
      rw [List.mem_singleton, Op.put.injEq] at h
      exact .inr (.inr (.inr (.inr ⟨host, h.1, h.2, hhost⟩)))
    · cases h

theorem marshalReports_ne_assignedState [Float64 F] {reports : Map String (Option (ShardStatusReport F))}
    {record : etcdtypes.AssignedState} : marshalReports reports ≠ .ok (.assignedState record) := by
  unfold marshalReports
  split <;> simp

theorem exists_put_of_mem_heartbeatOps {order : RangeOrder} {executorID : String} {request : HeartbeatState F}
    {reportedShards : Value F} {op : Op (Value F)}
    (h : op ∈ heartbeatOps pre ns order executorID request reportedShards) : ∃ key value, op = .put key value := by
  unfold heartbeatOps at h
  cases hhost : request.hostMetadata <;> cases op <;> simp [hhost] at h ⊢

/-- Whether or not it moves the version, a heartbeat writes nothing else. -/
theorem mem_heartbeatOps_or_touch {unchanged : Bool} {order : RangeOrder} {executorID : String}
    {request : HeartbeatState F} {reportedShards : Value F} {op : Op (Value F)}
    (h : op ∈ if unchanged then heartbeatOps pre ns order executorID request reportedShards
      else heartbeatOps pre ns order executorID request reportedShards ++ [touchAssignmentVersion pre ns]) :
    op ∈ heartbeatOps pre ns order executorID request reportedShards ∨ op = touchAssignmentVersion pre ns := by
  split at h
  · exact .inl h
  · exact (List.mem_append.mp h).imp_right List.mem_singleton.mp

/-- A heartbeat leaves everything else as it is. -/
theorem get_of_heartbeat [DecidableEq F] {unchanged : Bool} {order : RangeOrder} {executorID : String}
    {request : HeartbeatState F} {reportedShards : Value F}
    (happlied : Applied (if unchanged then heartbeatOps pre ns order executorID request reportedShards
      else heartbeatOps pre ns order executorID request reportedShards ++ [touchAssignmentVersion pre ns]) s s')
    {key : String} (hversion : key ≠ buildAssignmentVersionKey pre ns)
    (hputs : ∀ value, Op.put key value ∉ heartbeatOps pre ns order executorID request reportedShards) :
    s'.get key = s.get key := by
  refine happlied.get_of_spared (fun value hput => ?_) fun range hdelete => ?_
  · rcases mem_heartbeatOps_or_touch hput with hput | hput
    · exact hputs value hput
    · exact hversion (Op.put.inj hput).1
  · rcases mem_heartbeatOps_or_touch hdelete with hdelete | hdelete
    · obtain ⟨_, _, hput⟩ := exists_put_of_mem_heartbeatOps hdelete
      cases hput
    · cases hdelete

/-- Deletes all keys of an executor. -/
abbrev deletion (pre ns executorID : String) : Op (Value F) :=
  .delete (.withPrefix (buildExecutorIDPrefix pre ns executorID))

/-- A batch of deletions leaves the keys of everybody else. -/
theorem get_of_deletions [DecidableEq F] {executorIDs : List String} {batch : List (Op (Value F))}
    (hbatch : ∀ op ∈ batch, ∃ executorID ∈ executorIDs, op = deletion pre ns executorID)
    (happlied : Applied (batch ++ [touchAssignmentVersion pre ns]) s s') {key : String}
    (hversion : key ≠ buildAssignmentVersionKey pre ns)
    (hkey : ∀ executorID ∈ executorIDs, deletion pre ns executorID ∈ batch →
      hasPrefix key (buildExecutorIDPrefix pre ns executorID) = false) : s'.get key = s.get key := by
  refine happlied.get_of_spared (fun value hput => ?_) fun range hdelete => ?_
  · rcases List.mem_append.mp hput with hop | hop
    · obtain ⟨_, -, heq⟩ := hbatch _ hop
      cases heq
    · exact hversion (Op.put.inj (List.mem_singleton.mp hop)).1
  · rcases List.mem_append.mp hdelete with hop | hop
    · obtain ⟨executorID, hid, heq⟩ := hbatch _ hop
      cases heq
      exact hkey executorID hid hop
    · cases List.mem_singleton.mp hop

/-- A heartbeat that is stored moves the assignment version unless all its
metadata is already there. -/
theorem recordHeartbeat_cases [Float64 F] [DecidableEq F] {order : RangeOrder} {executorID : String}
    {request : HeartbeatState F} {fate : Fate} {result : Except StoreError Unit}
    (h : recordHeartbeat pre ns order executorID request fate s = (result, s')) :
    (s' = s ∧ ∃ e, result = .error e) ∨ ∃ reportedShards, marshalReports request.reportedShards = .ok reportedShards ∧
      Applied (if cmpsHold s (metadataUnchanged pre ns order executorID request)
        then heartbeatOps pre ns order executorID request reportedShards
        else heartbeatOps pre ns order executorID request reportedShards ++ [touchAssignmentVersion pre ns]) s s' := by
  unfold recordHeartbeat at h
  cases hmarshal : marshalReports request.reportedShards with
  | error message =>
    rw [hmarshal] at h
    cases h
    exact .inl ⟨rfl, _, rfl⟩
  | ok reportedShards =>
    rw [hmarshal] at h
    dsimp only at h
    split at h
    · rename_i cause s'' hsend
      cases h
      rcases Txn.send_flat_cases hsend with ⟨hs, -⟩ | ⟨happlied, -⟩
      · exact .inl ⟨hs, _, rfl⟩
      · exact .inr ⟨reportedShards, rfl, happlied⟩
    · rename_i response s'' hsend
      cases h
      rcases Txn.send_flat_cases hsend with ⟨-, e, hresult⟩ | ⟨happlied, -⟩
      · cases hresult
      · exact .inr ⟨reportedShards, rfl, happlied⟩

theorem marshalStatistics_eq_ok [Float64 F] {statistics : Map String (ShardStatistics F)} {payload : Value F}
    (h : marshalStatistics statistics = .ok payload) : payload = .statistics (jsonObject statistics) := by
  unfold marshalStatistics at h
  split at h
  · exact (Except.ok.inj h).symm
  · cases h

/-- Statistics are stored if the assignment has not changed. -/
theorem recordShardStatistics_cases [Float64 F] [DecidableEq F] {executorID : String} {assignmentModRevision : Int}
    {statistics : Map String (ShardStatistics F)} {fate : Fate} {result : Except StoreError Unit}
    (h : recordShardStatistics pre ns executorID assignmentModRevision statistics fate s = (result, s')) :
    s' = s ∨ s.modRevision (assignedStateKey pre ns executorID) = assignmentModRevision ∧
      Applied [.put (statisticsKey pre ns executorID) (.statistics (jsonObject statistics))] s s' := by
  unfold recordShardStatistics at h
  cases hmarshal : marshalStatistics statistics with
  | error message =>
    rw [hmarshal] at h
    cases h
    exact .inl rfl
  | ok payload =>
    rw [hmarshal] at h
    obtain rfl := marshalStatistics_eq_ok hmarshal
    dsimp only at h
    rcases hsend : (Txn.flat [.modRevision (assignedStateKey pre ns executorID) assignmentModRevision]
      [.put (statisticsKey pre ns executorID) (.statistics (jsonObject statistics))] []).send fate s with ⟨response, s''⟩
    have hstore : s' = s'' := by
      rw [hsend] at h
      cases response with
      | error cause =>
        cases h
        rfl
      | ok response =>
        dsimp only at h
        split at h <;> cases h <;> rfl
    subst hstore
    rcases Txn.send_flat_cases hsend with ⟨hsame, -⟩ | ⟨happlied, -⟩
    · exact .inl hsame
    · split at happlied
      · rename_i hcmps
        exact .inr ⟨by simpa [cmpsHold, Cmp.holds] using hcmps, happlied⟩
      · exact .inl happlied.eq_of_nil

/-- An update of the batch replaces the statistics of its executor, or fails. -/
theorem recordShardStatisticsUpdate_cases [Float64 F] [DecidableEq F] {executorID : String}
    {statistics : Map String (ShardStatistics F)} {fate : Fate} {result : Except StoreError Unit}
    (h : recordShardStatisticsUpdate pre ns executorID statistics fate s = (result, s')) :
    (s' = s ∧ ∃ e, result = .error e) ∨
      statistics.toList = [] ∧ Applied [.delete (.key (statisticsKey pre ns executorID))] s s' ∨
      statistics.toList ≠ [] ∧
        Applied [.put (statisticsKey pre ns executorID) (.statistics (jsonObject statistics))] s s' := by
  unfold recordShardStatisticsUpdate at h
  by_cases hnil : statistics.toList = []
  · rw [if_pos hnil] at h
    split at h <;> rename_i hsend <;> cases h
    all_goals rcases Txn.send_flat_cases hsend with ⟨hsame, e, hfailed⟩ | ⟨happlied, -⟩
    · exact .inl ⟨hsame, _, rfl⟩
    · exact .inr (.inl ⟨hnil, happlied⟩)
    · cases hfailed
    · exact .inr (.inl ⟨hnil, happlied⟩)
  · rw [if_neg hnil] at h
    cases hmarshal : marshalStatistics statistics with
    | error message =>
      rw [hmarshal] at h
      cases h
      exact .inl ⟨rfl, _, rfl⟩
    | ok payload =>
      rw [hmarshal] at h
      obtain rfl := marshalStatistics_eq_ok hmarshal
      dsimp only at h
      split at h <;> rename_i hsend <;> cases h
      all_goals rcases Txn.send_flat_cases hsend with ⟨hsame, e, hfailed⟩ | ⟨happlied, -⟩
      · exact .inl ⟨hsame, _, rfl⟩
      · exact .inr (.inr ⟨hnil, happlied⟩)
      · cases hfailed
      · exact .inr (.inr ⟨hnil, happlied⟩)

section Calls

variable {call : CommitOps (Value F)} {maxEtcdTxnOps : Int} {guard : Guarded (Value F)}

/-- What a cleanup of statistics commits touches nothing but statistics. -/
theorem deleteShardStats_running [Float64 F] [DecidableEq F] [Encoding F] {order : RangeOrder} {shardIDs : List String}
    (h : deleteShardStats pre ns order maxEtcdTxnOps shardIDs guard s = .ok (.running call)) :
    ∃ ops, commitOps maxEtcdTxnOps ops guard [] = .running call ∧ ∀ op ∈ ops, ∃ executorID,
      SlashFree executorID ∧ (op = .delete (.key (statisticsKey pre ns executorID)) ∨
        ∃ payload, op = .put (statisticsKey pre ns executorID) payload) := by
  unfold deleteShardStats at h
  split at h
  · cases h
  · obtain ⟨parsedData, hparse, h⟩ := bind_eq_ok_iff.mp h
    refine ⟨_, Except.ok.inj h, ?_⟩
    intro op hop
    obtain ⟨⟨executorID, executorData⟩, hentry, hop⟩ := List.mem_filterMap.mp hop
    have hlookup := RangeOrder.mem_range_iff.mp hentry
    refine ⟨executorID, slashFree_of_mem_parsed hparse (Map.mem_iff_exists_lookup.mpr ⟨_, hlookup⟩), ?_⟩
    dsimp only [deleteStatsOp] at hop
    split at hop
    · split at hop
      · cases hop
        exact .inl rfl
      · split at hop
        · cases hop
        · cases hop
          exact .inr ⟨_, rfl⟩
    · cases hop

/-- Without executors there are no operations, and the call returns all the same. -/
theorem deleteExecutors_eq (maxEtcdTxnOps : Int) (executorIDs : List String) (guard : Guarded (Value F)) :
    deleteExecutors pre ns maxEtcdTxnOps executorIDs guard =
      commitAssignmentOps pre ns maxEtcdTxnOps (executorIDs.map (deletion pre ns)) guard := by
  unfold deleteExecutors
  split
  · rename_i hnil
    rw [hnil]
    rfl
  · rfl

theorem deleteExecutors_running {executorIDs : List String}
    (h : deleteExecutors pre ns maxEtcdTxnOps executorIDs guard = .running call) :
    commitAssignmentOps pre ns maxEtcdTxnOps (executorIDs.map (deletion pre ns)) guard = .running call := by
  rwa [deleteExecutors_eq] at h

theorem validateShardID_of_mem {shardIDs : List String} (h : validateShardIDs shardIDs = .ok ())
    {shardID : String} (hmem : shardID ∈ shardIDs) : validateShardID shardID = .ok () :=
  ok_of_forM h hmem

theorem drainShards_running {shardIDs : List String}
    (h : drainShards pre ns maxEtcdTxnOps shardIDs = .ok (.running call)) :
    validateShardIDs shardIDs = .ok () ∧ commitAssignmentOps pre ns maxEtcdTxnOps
      (shardIDs.map fun shardID => .put (buildDrainedShardKey pre ns shardID) (.text "")) nopGuard = .running call := by
  obtain ⟨_, hvalid, h⟩ := bind_eq_ok_iff.mp h
  exact ⟨hvalid, Except.ok.inj h⟩

theorem undrainShards_running {shardIDs : List String}
    (h : undrainShards pre ns maxEtcdTxnOps shardIDs = .ok (.running call)) :
    validateShardIDs shardIDs = .ok () ∧ commitAssignmentOps pre ns maxEtcdTxnOps
      (shardIDs.map fun shardID => .delete (.key (buildDrainedShardKey pre ns shardID))) nopGuard = .running call := by
  obtain ⟨_, hvalid, h⟩ := bind_eq_ok_iff.mp h
  exact ⟨hvalid, Except.ok.inj h⟩

theorem drainHosts_running {order : RangeOrder} {hosts : List DrainedHost} {now : Time}
    (h : drainHosts pre ns order maxEtcdTxnOps hosts now s = .ok (.running call)) :
    ∃ ops, commitOps maxEtcdTxnOps ops nopGuard [] = .running call ∧ ∀ op ∈ ops, ∃ hostname host,
      op = .put (buildDrainedHostKey pre ns hostname) (.drainedHost host) := by
  obtain ⟨validated, -, h⟩ := bind_eq_ok_iff.mp h
  refine ⟨_, Except.ok.inj h, fun op hop => ?_⟩
  obtain ⟨⟨hostname, host⟩, -, hop⟩ := List.mem_filterMap.mp hop
  dsimp only at hop
  split at hop
  · cases hop
  · cases hop
    exact ⟨hostname, host, rfl⟩

theorem undrainHosts_running {hostnames : List String}
    (h : undrainHosts pre ns maxEtcdTxnOps hostnames = .ok (.running call)) :
    commitOps maxEtcdTxnOps
      (hostnames.map fun hostname => .delete (.key (buildDrainedHostKey pre ns hostname))) nopGuard [] =
        .running call := by
  obtain ⟨_, -, h⟩ := bind_eq_ok_iff.mp h
  exact Except.ok.inj h

end Calls

theorem resetNamespace_store [DecidableEq F] (pre ns : String) (fate : Fate) (s : Store (Value F)) :
    (resetNamespace pre ns fate s).2 = ((Txn.flat [] [.delete (.withPrefix (buildNamespacePrefix pre ns)),
      touchAssignmentVersion pre ns] []).send fate s).2 := by
  unfold resetNamespace
  rcases (Txn.flat _ _ _).send fate s with ⟨result, s'⟩
  cases result <;> rfl

end Spec

end executorstore
