import ShardManager.ExecutorStore.Writers

open golang etcd etcdkeys store types

namespace executorstore

open etcdtypes (Value Encoding)

variable {F : Type} {pre ns : String} {s s' : Store (Value F)}

/-- What an operation puts or deletes, at once or in its batches. The batches
of a call belong to the operation that began it. -/
def Write.Executes (pre ns : String) : Write F → Op (Value F) → Prop
  | .recordHeartbeat order executorID request _, op => op = touchAssignmentVersion pre ns ∨
    ∃ reportedShards, op ∈ heartbeatOps pre ns order executorID request reportedShards
  | .assignShards _ request _ _, op => op = touchAssignmentVersion pre ns ∨
    (∃ executorID ∈ request.newState.shardAssignments, ∃ record,
      op = .put (assignedStateKey pre ns executorID) (.assignedState record)) ∨
    ∃ executorID ∈ request.executorsToDelete, op = deletion pre ns executorID
  | .recordShardStatistics executorID _ _ _, op => ∃ payload, op = .put (statisticsKey pre ns executorID) payload
  | .recordShardStatisticsUpdate executorID _ _, op => op = .delete (.key (statisticsKey pre ns executorID)) ∨
    ∃ payload, op = .put (statisticsKey pre ns executorID) payload
  | .resetNamespace _, op => op = touchAssignmentVersion pre ns ∨
    op = .delete (.withPrefix (buildNamespacePrefix pre ns))
  | .deleteExecutors _ executorIDs _, op => op = touchAssignmentVersion pre ns ∨
    ∃ executorID ∈ executorIDs, op = deletion pre ns executorID
  | .deleteShardStats .., op => ∃ executorID, SlashFree executorID ∧
    (op = .delete (.key (statisticsKey pre ns executorID)) ∨
      ∃ payload, op = .put (statisticsKey pre ns executorID) payload)
  | .drainShards _ shardIDs, op => op = touchAssignmentVersion pre ns ∨
    ∃ shardID ∈ shardIDs, op = .put (buildDrainedShardKey pre ns shardID) (.text "")
  | .undrainShards _ shardIDs, op => op = touchAssignmentVersion pre ns ∨
    ∃ shardID ∈ shardIDs, op = .delete (.key (buildDrainedShardKey pre ns shardID))
  | .drainHosts .., op => ∃ hostname host, op = .put (buildDrainedHostKey pre ns hostname) (.drainedHost host)
  | .undrainHosts _ hostnames, op => ∃ hostname ∈ hostnames, op = .delete (.key (buildDrainedHostKey pre ns hostname))
  | .commitBatch .., _ => False

/-- Some operation of a kind puts or deletes this. -/
def ExecutedBy (pre ns : String) (allowed : Write F → Prop) (op : Op (Value F)) : Prop :=
  ∃ label, allowed label ∧ label.Executes pre ns op

/-- The store after one transaction of such operations, or the same store. -/
def Transacts [DecidableEq F] (P : Op (Value F) → Prop) (s s' : Store (Value F)) : Prop :=
  s' = s ∨ ∃ ops, (∀ op ∈ ops, P op) ∧ Applied ops s s'

/-- The calls in progress have nothing else to commit. -/
def Writers.Commits (P : Op (Value F) → Prop) (w : Writers F) : Prop :=
  ∀ call ∈ w.calls, ∀ op ∈ call.ops ++ call.extraOps, P op

theorem Transacts.follows [DecidableEq F] {P : Op (Value F) → Prop} (h : Transacts P s s') : s.Follows s' := by
  rcases h with rfl | ⟨ops, -, happlied⟩
  · exact .refl _
  · exact happlied.follows

theorem Transacts.mono [DecidableEq F] {P Q : Op (Value F) → Prop} (h : Transacts P s s')
    (hmono : ∀ op, P op → Q op) : Transacts Q s s' := by
  rcases h with rfl | ⟨ops, hops, happlied⟩
  · exact .inl rfl
  · exact .inr ⟨ops, fun op hop => hmono op (hops op hop), happlied⟩

section Operations

variable [DecidableEq F]

theorem assignShards_executes (pre ns : String) (order : RangeOrder) (request : AssignShardsRequest F)
    (guard : Guarded (Value F)) (fate : Fate) (s : Store (Value F)) :
    Transacts ((Write.assignShards order request guard fate).Executes pre ns) s
      (assignShards pre ns order request guard fate s).2 := by
  refine (assignShards_applied pre ns order request guard fate s).imp_right fun happlied => ⟨_, ?_, happlied⟩
  refine List.forall_mem_append.mpr ⟨fun op hop => ?_, List.forall_mem_singleton.mpr (.inl rfl)⟩
  cases op with
  | put key value =>
    obtain ⟨executorID, state, hlookup, -, rfl, rfl⟩ := put_mem_assignmentOps.mp hop
    exact .inr (.inl ⟨executorID, Map.mem_iff_exists_lookup.mpr ⟨_, hlookup⟩, _, rfl⟩)
  | delete range =>
    obtain ⟨executorID, hmem, rfl⟩ := delete_mem_assignmentOps.mp hop
    exact .inr (.inr ⟨executorID, hmem, rfl⟩)
  | get range => simp [assignmentOps] at hop

theorem recordHeartbeat_executes [Float64 F] (order : RangeOrder) (executorID : String) (request : HeartbeatState F)
    (fate : Fate) (s : Store (Value F)) :
    Transacts ((Write.recordHeartbeat order executorID request fate).Executes pre ns) s
      (recordHeartbeat pre ns order executorID request fate s).2 := by
  rcases hcall : recordHeartbeat pre ns order executorID request fate s with ⟨result, s'⟩
  rcases recordHeartbeat_cases hcall with ⟨hsame, -⟩ | ⟨reportedShards, -, happlied⟩
  · exact .inl hsame
  · refine .inr ⟨_, fun op hop => ?_, happlied⟩
    rcases mem_heartbeatOps_or_touch hop with hop | hop
    · exact .inr ⟨reportedShards, hop⟩
    · exact .inl hop

theorem recordShardStatistics_executes [Float64 F] (executorID : String) (assignmentModRevision : Int)
    (statistics : Map String (ShardStatistics F)) (fate : Fate) (s : Store (Value F)) :
    Transacts ((Write.recordShardStatistics executorID assignmentModRevision statistics fate).Executes pre ns) s
      (recordShardStatistics pre ns executorID assignmentModRevision statistics fate s).2 := by
  rcases hcall : recordShardStatistics pre ns executorID assignmentModRevision statistics fate s with ⟨result, s'⟩
  refine (recordShardStatistics_cases hcall).imp_right fun ⟨_, happlied⟩ => ⟨_, ?_, happlied⟩
  exact List.forall_mem_singleton.mpr ⟨_, rfl⟩

theorem recordShardStatisticsUpdate_executes [Float64 F] (executorID : String)
    (statistics : Map String (ShardStatistics F)) (fate : Fate) (s : Store (Value F)) :
    Transacts ((Write.recordShardStatisticsUpdate executorID statistics fate).Executes pre ns) s
      (recordShardStatisticsUpdate pre ns executorID statistics fate s).2 := by
  rcases hcall : recordShardStatisticsUpdate pre ns executorID statistics fate s with ⟨result, s'⟩
  rcases recordShardStatisticsUpdate_cases hcall with ⟨hsame, -⟩ | ⟨-, happlied⟩ | ⟨-, happlied⟩
  · exact .inl hsame
  · exact .inr ⟨_, List.forall_mem_singleton.mpr (.inl rfl), happlied⟩
  · exact .inr ⟨_, List.forall_mem_singleton.mpr (.inr ⟨_, rfl⟩), happlied⟩

theorem resetNamespace_executes (pre ns : String) (fate : Fate) (s : Store (Value F)) :
    Transacts ((Write.resetNamespace fate).Executes pre ns) s (resetNamespace pre ns fate s).2 := by
  rw [resetNamespace_store]
  refine (Txn.send_flat_store ..).imp_right fun happlied => ⟨_, ?_, happlied⟩
  exact List.forall_mem_cons.mpr ⟨.inr rfl, List.forall_mem_singleton.mpr (.inl rfl)⟩

end Operations

section Calls

variable {P : Op (Value F) → Prop} {call : CommitOps (Value F)}

theorem executes_of_commitOps {maxEtcdTxnOps : Int} {ops extraOps : List (Op (Value F))} {guard : Guarded (Value F)}
    (h : commitOps maxEtcdTxnOps ops guard extraOps = .running call)
    (hops : ∀ op ∈ ops, P op) (hextra : ∀ op ∈ extraOps, P op) :
    ∀ op ∈ call.ops ++ call.extraOps, P op := by
  obtain ⟨rfl, rfl, -⟩ := commitOps_running h
  exact List.forall_mem_append.mpr ⟨hops, hextra⟩

/-- The same for a call that commits the version with every batch. -/
theorem executes_of_commitAssignmentOps {maxEtcdTxnOps : Int} {ops : List (Op (Value F))} {guard : Guarded (Value F)}
    (h : commitAssignmentOps pre ns maxEtcdTxnOps ops guard = .running call)
    (hops : ∀ op ∈ ops, P op) (hversion : P (touchAssignmentVersion pre ns)) :
    ∀ op ∈ call.ops ++ call.extraOps, P op :=
  executes_of_commitOps h hops (List.forall_mem_singleton.mpr hversion)

end Calls

/-- A call in progress commits its next batch. -/
def Writers.Advances [DecidableEq F] (w w' : Writers F) (i : Nat) (fate : Fate) (call : CommitOps (Value F)) : Prop :=
  w.calls[i]? = some call ∧
    ((∃ call', call.commitBatch fate w.store = (.running call', w'.store) ∧ w'.calls = w.calls.set i call') ∨
      ∃ result, call.commitBatch fate w.store = (.returned result, w'.store) ∧ w'.calls = w.calls.eraseIdx i)

/-- The operation commits in batches. -/
def Write.batched : Write F → Bool
  | .deleteExecutors .. | .deleteShardStats .. | .drainShards .. | .undrainShards .. | .drainHosts ..
  | .undrainHosts .. | .commitBatch .. => true
  | .recordHeartbeat .. | .assignShards .. | .recordShardStatistics .. | .recordShardStatisticsUpdate ..
  | .resetNamespace .. => false

/-- An operation executes a transaction of its own, or its call begins. -/
def Writers.Starts [DecidableEq F] (pre ns : String) (w w' : Writers F) (label : Write F) : Prop :=
  label.batched = false ∧ Transacts (label.Executes pre ns) w.store w'.store ∧ w'.calls = w.calls ∨
    w'.store = w.store ∧ (w'.calls = w.calls ∨ ∃ call, w'.calls = w.calls ++ [call] ∧
      ∀ op ∈ call.ops ++ call.extraOps, label.Executes pre ns op)

theorem Writers.starts_begin [DecidableEq F] {w : Writers F} {label : Write F}
    {progress : Except String (Progress (Value F))}
    (hcall : ∀ call, progress = .ok (.running call) → ∀ op ∈ call.ops ++ call.extraOps, label.Executes pre ns op) :
    w.Starts pre ns (w.begin progress) label := by
  unfold Writers.begin
  split
  · exact .inr ⟨rfl, .inr ⟨_, rfl, hcall _ rfl⟩⟩
  · exact .inr ⟨rfl, .inl rfl⟩
  · exact .inr ⟨rfl, .inl rfl⟩

theorem Writers.advances_of_write [Float64 F] [DecidableEq F] [Encoding F] {w w' : Writers F} {i : Nat} {fate : Fate}
    (h : write pre ns (.commitBatch i fate) w = some w') : ∃ call, w.Advances w' i fate call := by
  dsimp only [write] at h
  split at h
  · cases h
  · rename_i call hcall
    refine ⟨call, hcall, ?_⟩
    split at h
    · rename_i call' s' hcommit
      cases h
      exact .inl ⟨call', hcommit, rfl⟩
    · rename_i result s' hcommit
      cases h
      exact .inr ⟨result, hcommit, rfl⟩

/-- Everything an operation can do. -/
theorem write_cases [Float64 F] [DecidableEq F] [Encoding F] {w w' : Writers F} {label : Write F}
    (h : write pre ns label w = some w') :
    w.Starts pre ns w' label ∨ ∃ i fate call, label = .commitBatch i fate ∧ w.Advances w' i fate call := by
  cases label with
  | recordHeartbeat order executorID request fate =>
    cases h
    exact .inl (.inl ⟨rfl, recordHeartbeat_executes order executorID request fate w.store, rfl⟩)
  | assignShards order request guard fate =>
    cases h
    exact .inl (.inl ⟨rfl, assignShards_executes pre ns order request guard fate w.store, rfl⟩)
  | recordShardStatistics executorID assignmentModRevision statistics fate =>
    cases h
    exact .inl (.inl ⟨rfl, recordShardStatistics_executes executorID assignmentModRevision statistics fate w.store, rfl⟩)
  | recordShardStatisticsUpdate executorID statistics fate =>
    cases h
    exact .inl (.inl ⟨rfl, recordShardStatisticsUpdate_executes executorID statistics fate w.store, rfl⟩)
  | resetNamespace fate =>
    cases h
    exact .inl (.inl ⟨rfl, resetNamespace_executes pre ns fate w.store, rfl⟩)
  | deleteExecutors maxEtcdTxnOps executorIDs guard =>
    cases h
    refine .inl (Writers.starts_begin fun call hcall => ?_)
    refine executes_of_commitAssignmentOps (deleteExecutors_running (Except.ok.inj hcall)) (fun op hop => ?_) (.inl rfl)
    obtain ⟨executorID, hmem, rfl⟩ := List.mem_map.mp hop
    exact .inr ⟨executorID, hmem, rfl⟩
  | deleteShardStats order maxEtcdTxnOps shardIDs guard =>
    cases h
    refine .inl (Writers.starts_begin fun call hcall => ?_)
    obtain ⟨ops, hcommit, hstats⟩ := deleteShardStats_running hcall
    exact executes_of_commitOps hcommit hstats (List.forall_mem_nil _)
  | drainShards maxEtcdTxnOps shardIDs =>
    cases h
    refine .inl (Writers.starts_begin fun call hcall => ?_)
    refine executes_of_commitAssignmentOps (drainShards_running hcall).2 (fun op hop => ?_) (.inl rfl)
    obtain ⟨shardID, hmem, rfl⟩ := List.mem_map.mp hop
    exact .inr ⟨shardID, hmem, rfl⟩
  | undrainShards maxEtcdTxnOps shardIDs =>
    cases h
    refine .inl (Writers.starts_begin fun call hcall => ?_)
    refine executes_of_commitAssignmentOps (undrainShards_running hcall).2 (fun op hop => ?_) (.inl rfl)
    obtain ⟨shardID, hmem, rfl⟩ := List.mem_map.mp hop
    exact .inr ⟨shardID, hmem, rfl⟩
  | drainHosts order maxEtcdTxnOps hosts now =>
    cases h
    refine .inl (Writers.starts_begin fun call hcall => ?_)
    obtain ⟨ops, hcommit, hops⟩ := drainHosts_running hcall
    exact executes_of_commitOps hcommit hops (List.forall_mem_nil _)
  | undrainHosts maxEtcdTxnOps hostnames =>
    cases h
    refine .inl (Writers.starts_begin fun call hcall => ?_)
    refine executes_of_commitOps (undrainHosts_running hcall) (fun op hop => ?_) (List.forall_mem_nil _)
    obtain ⟨hostname, hmem, rfl⟩ := List.mem_map.mp hop
    exact ⟨hostname, hmem, rfl⟩
  | commitBatch i fate =>
    obtain ⟨call, hadvances⟩ := Writers.advances_of_write h
    exact .inr ⟨i, fate, call, rfl, hadvances⟩

/-- If an operation and all calls in progress are of a kind, so is what they
execute and so are the calls that are in progress then. -/
theorem write_executes [Float64 F] [DecidableEq F] [Encoding F] {P : Op (Value F) → Prop} {w w' : Writers F}
    {label : Write F} (hcalls : w.Commits P) (hlabel : ∀ op, label.Executes pre ns op → P op)
    (h : write pre ns label w = some w') : Transacts P w.store w'.store ∧ w'.Commits P := by
  rcases write_cases h with (⟨-, htransacts, hsame⟩ | ⟨hstore, hsame | ⟨call, hnew, hops⟩⟩) |
    ⟨i, fate, call, -, hcall, hadvances⟩
  · refine ⟨htransacts.mono hlabel, ?_⟩
    rwa [Writers.Commits, hsame]
  · refine ⟨.inl hstore, ?_⟩
    rwa [Writers.Commits, hsame]
  · refine ⟨.inl hstore, ?_⟩
    rw [Writers.Commits, hnew]
    exact transition.forall_mem_concat hcalls fun op hop => hlabel op (hops op hop)
  · have hops := hcalls call (List.mem_of_getElem? hcall)
    have htransacts : ∀ {progress s'}, call.commitBatch fate w.store = (progress, s') → Transacts P w.store s' := by
      intro progress s' hcommit
      rcases CommitOps.commitBatch_cases hcommit with ⟨hsame, -⟩ | ⟨-, batch, -, hbatch, -, happlied, -⟩
      · exact .inl hsame
      · obtain ⟨hbatchOps, hextra⟩ := List.forall_mem_append.mp hops
        refine .inr ⟨_, List.forall_mem_append.mpr ⟨fun op hop => ?_, hextra⟩, happlied⟩
        exact hbatchOps op (CommitOps.mem_of_mem_batch hbatch hop)
    rcases hadvances with ⟨call', hcommit, hnew⟩ | ⟨result, hcommit, hnew⟩
    · refine ⟨htransacts hcommit, ?_⟩
      have hsame := CommitOps.sameCall_of_running hcommit
      rw [Writers.Commits, hnew]
      refine transition.forall_mem_set hcalls ?_
      rwa [hsame.ops, hsame.extraOps]
    · refine ⟨htransacts hcommit, ?_⟩
      rw [Writers.Commits, hnew]
      exact transition.forall_mem_eraseIdx hcalls

/-- Operations of a kind keep the calls in progress of that kind. -/
theorem write_executedBy [Float64 F] [DecidableEq F] [Encoding F] {allowed : Write F → Prop} {w w' : Writers F}
    {label : Write F} (hcalls : w.Commits (ExecutedBy pre ns allowed)) (hlabel : allowed label)
    (h : write pre ns label w = some w') :
    Transacts (ExecutedBy pre ns allowed) w.store w'.store ∧ w'.Commits (ExecutedBy pre ns allowed) :=
  write_executes hcalls (fun _ hop => ⟨label, hlabel, hop⟩) h

/-- The operation stores a heartbeat. -/
def Write.isHeartbeat : Write F → Bool
  | .recordHeartbeat .. => true
  | _ => false

/-- The operation replaces statistics. -/
def Write.recordsStatistics : Write F → Bool
  | .recordShardStatistics .. | .recordShardStatisticsUpdate .. | .deleteShardStats .. => true
  | _ => false

/-- All that the operations of a namespace other than heartbeats put or delete,
whatever identifiers they are called with. -/
inductive WriteOp (pre ns : String) : Op (Value F) → Prop where
  | record (executorID : String) (record : etcdtypes.AssignedState) :
      WriteOp pre ns (.put (assignedStateKey pre ns executorID) (.assignedState record))
  | statistics (executorID : String) (payload : Value F) :
      WriteOp pre ns (.put (statisticsKey pre ns executorID) payload)
  | noStatistics (executorID : String) : WriteOp pre ns (.delete (.key (statisticsKey pre ns executorID)))
  | drainedShard (shardID : String) : WriteOp pre ns (.put (buildDrainedShardKey pre ns shardID) (.text ""))
  | undrainedShard (shardID : String) : WriteOp pre ns (.delete (.key (buildDrainedShardKey pre ns shardID)))
  | drainedHost (hostname : String) (host : DrainedHost) :
      WriteOp pre ns (.put (buildDrainedHostKey pre ns hostname) (.drainedHost host))
  | undrainedHost (hostname : String) : WriteOp pre ns (.delete (.key (buildDrainedHostKey pre ns hostname)))
  | executor (executorID : String) : WriteOp pre ns (.delete (.withPrefix (buildExecutorIDPrefix pre ns executorID)))
  | reset : WriteOp pre ns (.delete (.withPrefix (buildNamespacePrefix pre ns)))
  | version : WriteOp pre ns (touchAssignmentVersion pre ns)

theorem writeOp_of_executes {label : Write F} (hlabel : label.isHeartbeat = false) {op : Op (Value F)}
    (h : label.Executes pre ns op) : WriteOp pre ns op := by
  cases label with
  | recordHeartbeat order executorID request fate => cases hlabel
  | assignShards order request guard fate =>
    rcases h with rfl | ⟨executorID, -, record, rfl⟩ | ⟨executorID, -, rfl⟩
    · exact .version
    · exact .record executorID record
    · exact .executor executorID
  | recordShardStatistics executorID assignmentModRevision statistics fate =>
    obtain ⟨payload, rfl⟩ := h
    exact .statistics executorID payload
  | recordShardStatisticsUpdate executorID statistics fate =>
    rcases h with rfl | ⟨payload, rfl⟩
    · exact .noStatistics executorID
    · exact .statistics executorID payload
  | resetNamespace fate =>
    rcases h with rfl | rfl
    · exact .version
    · exact .reset
  | deleteExecutors maxEtcdTxnOps executorIDs guard =>
    rcases h with rfl | ⟨executorID, -, rfl⟩
    · exact .version
    · exact .executor executorID
  | deleteShardStats order maxEtcdTxnOps shardIDs guard =>
    obtain ⟨executorID, -, rfl | ⟨payload, rfl⟩⟩ := h
    · exact .noStatistics executorID
    · exact .statistics executorID payload
  | drainShards maxEtcdTxnOps shardIDs =>
    rcases h with rfl | ⟨shardID, -, rfl⟩
    · exact .version
    · exact .drainedShard shardID
  | undrainShards maxEtcdTxnOps shardIDs =>
    rcases h with rfl | ⟨shardID, -, rfl⟩
    · exact .version
    · exact .undrainedShard shardID
  | drainHosts order maxEtcdTxnOps hosts now =>
    obtain ⟨hostname, host, rfl⟩ := h
    exact .drainedHost hostname host
  | undrainHosts maxEtcdTxnOps hostnames =>
    obtain ⟨hostname, -, rfl⟩ := h
    exact .undrainedHost hostname
  | commitBatch i fate => cases h

/-- The calls in progress have nothing else to commit. -/
def Writers.WriteOps (pre ns : String) (w : Writers F) : Prop :=
  ∀ call ∈ w.calls, ∀ op ∈ call.ops ++ call.extraOps, WriteOp pre ns op

/-- The store after one transaction of such operations, or the same store. -/
def Applies [DecidableEq F] (pre ns : String) (s s' : Store (Value F)) : Prop :=
  s' = s ∨ ∃ ops, (∀ op ∈ ops, WriteOp pre ns op) ∧ Applied ops s s'

/-- Everything a write other than a heartbeat can do. -/
theorem write_applies [Float64 F] [DecidableEq F] [Encoding F] {w w' : Writers F} {label : Write F}
    (hops : w.WriteOps pre ns) (hlabel : label.isHeartbeat = false) (h : write pre ns label w = some w') :
    Applies pre ns w.store w'.store ∧ w'.WriteOps pre ns :=
  write_executes hops (fun _ => writeOp_of_executes hlabel) h

section Keys

variable {executorID : String}

/-- A key of an executor that is put or deleted on its own holds its record or
its statistics. -/
theorem key_ne_of_writeOp {op : Op (Value F)} (hop : WriteOp pre ns op) {kt : ExecutorKeyType} (hkt : kt.Known)
    (hrecord : kt ≠ .assignedState) (hstatistics : kt ≠ .shardStatistics) :
    op.key? ≠ some (buildExecutorKey pre ns executorID kt) := by
  intro hkey
  cases hop with
  | record e record => exact hrecord (buildExecutorKey_inj (by trivial) hkt (Option.some.inj hkey)).2.symm
  | statistics e payload => exact hstatistics (buildExecutorKey_inj (by trivial) hkt (Option.some.inj hkey)).2.symm
  | noStatistics e => exact hstatistics (buildExecutorKey_inj (by trivial) hkt (Option.some.inj hkey)).2.symm
  | drainedShard shardID => exact executorKey_ne_drainedShardKey executorID shardID kt (Option.some.inj hkey).symm
  | undrainedShard shardID => exact executorKey_ne_drainedShardKey executorID shardID kt (Option.some.inj hkey).symm
  | drainedHost hostname host => exact executorKey_ne_drainedHostKey executorID hostname kt (Option.some.inj hkey).symm
  | undrainedHost hostname => exact executorKey_ne_drainedHostKey executorID hostname kt (Option.some.inj hkey).symm
  | executor e => cases hkey
  | reset => cases hkey
  | version => exact executorKey_ne_version executorID kt (Option.some.inj hkey).symm

/-- A deleted directory takes all keys of an executor with it or none. -/
theorem contains_of_writeOp {dir : String} (hop : WriteOp pre ns (.delete (.withPrefix dir) : Op (Value F)))
    {kt kt' : ExecutorKeyType} (hkt : kt.Known) (hkt' : kt'.Known) :
    (Range.withPrefix dir).contains (buildExecutorKey pre ns executorID kt) =
      (Range.withPrefix dir).contains (buildExecutorKey pre ns executorID kt') := by
  cases hop with
  | executor e =>
    have hsegment : ∀ {kt : ExecutorKeyType}, kt.Known →
        hasPrefix (buildExecutorKey pre ns executorID kt) (buildExecutorIDPrefix pre ns e) =
          decide (e.toList ++ ['/'] <+: executorID.toList ++ ['/']) := by
      intro kt hkt
      rw [Bool.eq_iff_iff, decide_eq_true_iff, hasPrefix_iff, toList_buildExecutorKey, buildExecutorIDPrefix,
        String.toList_append, String.toList_append, List.append_assoc, List.prefix_append_right_inj]
      exact segment_prefix_iff (ExecutorKeyType.slashFree_name hkt)
    exact (hsegment hkt).trans (hsegment hkt').symm
  | reset =>
    have hns : ∀ kt, hasPrefix (buildExecutorKey pre ns executorID kt) (buildNamespacePrefix pre ns) = true := by
      intro kt
      simp [hasPrefix_iff, buildExecutorKey, buildExecutorIDPrefix, buildExecutorsPrefix]
    exact (hns kt).trans (hns kt').symm

/-- Whatever is written besides heartbeats, the keys of an executor that are
not written on their own stay as they are, or all its keys go. -/
theorem Transacts.kept_or_gone [DecidableEq F] {P : Op (Value F) → Prop} (h : Transacts P s s')
    (hP : ∀ op, P op → WriteOp pre ns op) (executorID : String) :
    (∀ kt : ExecutorKeyType, kt.Known → (∀ op, P op → op.key? ≠ some (buildExecutorKey pre ns executorID kt)) →
      s'.get (buildExecutorKey pre ns executorID kt) = s.get (buildExecutorKey pre ns executorID kt)) ∨
    ∀ kt : ExecutorKeyType, kt.Known → s'.get (buildExecutorKey pre ns executorID kt) = none := by
  rcases h with rfl | ⟨ops, hops, happlied⟩
  · exact .inl fun _ _ _ => rfl
  by_cases hdeleted : ∃ dir, Op.delete (.withPrefix dir) ∈ ops ∧
      (Range.withPrefix dir).contains (buildExecutorKey pre ns executorID .heartbeat) = true
  · obtain ⟨dir, hmem, hcontains⟩ := hdeleted
    refine .inr fun kt hkt => happlied.get_of_deleted hmem ?_
    rwa [contains_of_writeOp (hP _ (hops _ hmem)) hkt (by trivial : ExecutorKeyType.heartbeat.Known)]
  · refine .inl fun kt hkt hkeys => happlied.get_of_not_touches fun htouch => ?_
    rcases htouch.cases with ⟨op, hop, hkey⟩ | ⟨dir, hmem, hcontains⟩
    · exact hkeys op (hops op hop) hkey
    · rw [contains_of_writeOp (hP _ (hops _ hmem)) hkt (by trivial : ExecutorKeyType.heartbeat.Known)] at hcontains
      exact hdeleted ⟨dir, hmem, hcontains⟩

end Keys

end executorstore
