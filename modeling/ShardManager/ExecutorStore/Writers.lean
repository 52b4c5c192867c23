import ShardManager.Abstract.Transition
import ShardManager.ExecutorStore.Operations

open golang etcd etcdkeys store types

namespace executorstore

open etcdtypes (Value Encoding)

variable {F : Type}

/-- A store with the batched calls that are in progress on it. -/
structure Writers (F : Type) where
  store : Store (Value F)
  calls : List (CommitOps (Value F))

/-- The writing operations of one namespace. A batched operation begins with
what it reads and then commits one batch at a time; it stops when its next
batch is never committed. -/
inductive Write (F : Type) where
  | recordHeartbeat (order : RangeOrder) (executorID : String) (request : HeartbeatState F) (fate : Fate)
  | assignShards (order : RangeOrder) (request : AssignShardsRequest F) (guard : Guarded (Value F)) (fate : Fate)
  | recordShardStatistics (executorID : String) (assignmentModRevision : Int)
      (statistics : Map String (ShardStatistics F)) (fate : Fate)
  /-- One update of `RecordShardStatisticsBatch`. -/
  | recordShardStatisticsUpdate (executorID : String) (statistics : Map String (ShardStatistics F)) (fate : Fate)
  | resetNamespace (fate : Fate)
  | deleteExecutors (maxEtcdTxnOps : Int) (executorIDs : List String) (guard : Guarded (Value F))
  | deleteShardStats (order : RangeOrder) (maxEtcdTxnOps : Int) (shardIDs : List String)
      (guard : Guarded (Value F))
  | drainShards (maxEtcdTxnOps : Int) (shardIDs : List String)
  | undrainShards (maxEtcdTxnOps : Int) (shardIDs : List String)
  | drainHosts (order : RangeOrder) (maxEtcdTxnOps : Int) (hosts : List DrainedHost) (now : Time)
  | undrainHosts (maxEtcdTxnOps : Int) (hostnames : List String)
  /-- The next batch of a call in progress. -/
  | commitBatch (i : Nat) (fate : Fate)

/-- The executor IDs an operation is called with are single path segments. -/
def Write.SlashFreeIDs : Write F → Prop
  | .recordHeartbeat _ executorID _ _ => SlashFree executorID
  | .assignShards _ request _ _ =>
    (∀ executorID ∈ request.newState.shardAssignments, SlashFree executorID) ∧
      ∀ executorID ∈ request.executorsToDelete, SlashFree executorID
  | .recordShardStatistics executorID _ _ _ => SlashFree executorID
  | .recordShardStatisticsUpdate executorID _ _ => SlashFree executorID
  | .deleteExecutors _ executorIDs _ => ∀ executorID ∈ executorIDs, SlashFree executorID
  | _ => True

instance (label : Write F) : Decidable label.SlashFreeIDs :=
  match label with
  | .recordHeartbeat _ executorID _ _ => inferInstanceAs (Decidable (SlashFree executorID))
  | .assignShards _ request _ _ => inferInstanceAs (Decidable (
      (∀ executorID ∈ request.newState.shardAssignments.keys, SlashFree executorID) ∧
        ∀ executorID ∈ request.executorsToDelete.keys, SlashFree executorID))
  | .recordShardStatistics executorID _ _ _ => inferInstanceAs (Decidable (SlashFree executorID))
  | .recordShardStatisticsUpdate executorID _ _ => inferInstanceAs (Decidable (SlashFree executorID))
  | .deleteExecutors _ executorIDs _ => inferInstanceAs (Decidable (∀ executorID ∈ executorIDs, SlashFree executorID))
  | .resetNamespace .. | .deleteShardStats .. | .drainShards .. | .undrainShards .. | .drainHosts ..
  | .undrainHosts .. | .commitBatch .. => inferInstanceAs (Decidable True)

/-- A batched call that has something to commit is in progress. -/
def Writers.begin (w : Writers F) : Except String (Progress (Value F)) → Writers F
  | .ok (.running call) => { w with calls := w.calls ++ [call] }
  | .ok (.returned _) => w
  | .error _ => w

section Model

variable (pre ns : String) [Float64 F] [DecidableEq F] [Encoding F]

def write : Write F → Writers F → Option (Writers F)
  | .recordHeartbeat order executorID request fate, w =>
    some { w with store := (recordHeartbeat pre ns order executorID request fate w.store).2 }
  | .assignShards order request guard fate, w =>
    some { w with store := (assignShards pre ns order request guard fate w.store).2 }
  | .recordShardStatistics executorID assignmentModRevision statistics fate, w =>
    some { w with
      store := (recordShardStatistics pre ns executorID assignmentModRevision statistics fate w.store).2 }
  | .recordShardStatisticsUpdate executorID statistics fate, w =>
    some { w with store := (recordShardStatisticsUpdate pre ns executorID statistics fate w.store).2 }
  | .resetNamespace fate, w => some { w with store := (resetNamespace pre ns fate w.store).2 }
  | .deleteExecutors maxEtcdTxnOps executorIDs guard, w =>
    some (w.begin (.ok (deleteExecutors pre ns maxEtcdTxnOps executorIDs guard)))
  | .deleteShardStats order maxEtcdTxnOps shardIDs guard, w =>
    some (w.begin (deleteShardStats pre ns order maxEtcdTxnOps shardIDs guard w.store))
  | .drainShards maxEtcdTxnOps shardIDs, w => some (w.begin (drainShards pre ns maxEtcdTxnOps shardIDs))
  | .undrainShards maxEtcdTxnOps shardIDs, w => some (w.begin (undrainShards pre ns maxEtcdTxnOps shardIDs))
  | .drainHosts order maxEtcdTxnOps hosts now, w =>
    some (w.begin (drainHosts pre ns order maxEtcdTxnOps hosts now w.store))
  | .undrainHosts maxEtcdTxnOps hostnames, w => some (w.begin (undrainHosts pre ns maxEtcdTxnOps hostnames))
  | .commitBatch i fate, w =>
    match w.calls[i]? with
    | none => none
    | some call =>
      match call.commitBatch fate w.store with
      | (.running call, s) => some ⟨s, w.calls.set i call⟩
      | (.returned _, s) => some ⟨s, w.calls.eraseIdx i⟩

end Model

section Spec

variable {pre ns : String} {s s' : Store (Value F)}

/-- Operations on what spectators do not see: heartbeats, statistics, drained
hosts. -/
inductive Hidden (pre ns : String) : Op (Value F) → Prop where
  | executor {executorID : String} {kt : ExecutorKeyType} (hid : SlashFree executorID) (hkt : kt.Known)
      (hassigned : kt ≠ .assignedState) (hmetadata : kt ≠ .metadata) (value : Value F) :
      Hidden pre ns (.put (buildExecutorKey pre ns executorID kt) value)
  | statistics {executorID : String} (hid : SlashFree executorID) :
      Hidden pre ns (.delete (.key (statisticsKey pre ns executorID)))
  | drainedHost (hostname : String) (host : DrainedHost) :
      Hidden pre ns (.put (buildDrainedHostKey pre ns hostname) (.drainedHost host))
  | undrainedHost (hostname : String) : Hidden pre ns (.delete (.key (buildDrainedHostKey pre ns hostname)))

/-- Operations on what spectators see. Metadata is never deleted alone. -/
inductive Visible (pre ns : String) : Op (Value F) → Prop where
  | record {executorID : String} (hid : SlashFree executorID) (record : etcdtypes.AssignedState) :
      Visible pre ns (.put (assignedStateKey pre ns executorID) (.assignedState record))
  | metadata {executorID : String} (hid : SlashFree executorID) (name text : String) :
      Visible pre ns (.put (buildMetadataKey pre ns executorID name) (.text text))
  | drainedShard {shardID : String} (hvalid : validateShardID shardID = .ok ()) :
      Visible pre ns (.put (buildDrainedShardKey pre ns shardID) (.text ""))
  | undrainedShard {shardID : String} (hvalid : validateShardID shardID = .ok ()) :
      Visible pre ns (.delete (.key (buildDrainedShardKey pre ns shardID)))
  | executor {executorID : String} (hid : SlashFree executorID) :
      Visible pre ns (.delete (.withPrefix (buildExecutorIDPrefix pre ns executorID)))
  | reset : Visible pre ns (.delete (.withPrefix (buildNamespacePrefix pre ns)))

/-- The operation leaves what spectators see as it is. -/
def Quiet (pre ns : String) (s : Store (Value F)) (op : Op (Value F)) : Prop :=
  Hidden pre ns op ∨ ∃ executorID name text kv, SlashFree executorID ∧
    op = .put (buildMetadataKey pre ns executorID name) (.text text) ∧
    s.get (buildMetadataKey pre ns executorID name) = some kv ∧ kv.value = .text text

/-- What a transaction of the namespace executes. It moves the assignment
version unless all it does is quiet. -/
structure Writes (pre ns : String) (s : Store (Value F)) (ops : List (Op (Value F))) : Prop where
  kinds : ∀ op ∈ ops, Hidden pre ns op ∨ Visible pre ns op ∨ op = touchAssignmentVersion pre ns
  touched : touchAssignmentVersion pre ns ∈ ops ∨ ∀ op ∈ ops, Quiet pre ns s op

theorem Writes.of_hidden {ops : List (Op (Value F))} (h : ∀ op ∈ ops, Hidden pre ns op) : Writes pre ns s ops :=
  ⟨fun op hop => .inl (h op hop), .inr fun op hop => .inl (h op hop)⟩

theorem Writes.of_visible {ops : List (Op (Value F))} (h : ∀ op ∈ ops, Hidden pre ns op ∨ Visible pre ns op) :
    Writes pre ns s (ops ++ [touchAssignmentVersion pre ns]) := by
  refine ⟨fun op hop => ?_, .inl (by simp)⟩
  rcases List.mem_append.mp hop with hop | hop
  · exact (h op hop).imp_right .inl
  · exact .inr (.inr (List.mem_singleton.mp hop))

/-- A batched call either commits visible operations with the version, or
hidden ones. -/
def BatchOps (pre ns : String) (call : CommitOps (Value F)) : Prop :=
  (∀ op ∈ call.ops, Visible pre ns op) ∧ call.extraOps = [touchAssignmentVersion pre ns] ∨
    (∀ op ∈ call.ops, Hidden pre ns op) ∧ call.extraOps = []

/-- The store after a transaction of the namespace, or the same store. -/
def Written [DecidableEq F] (pre ns : String) (s s' : Store (Value F)) : Prop :=
  s' = s ∨ ∃ ops, Writes pre ns s ops ∧ Applied ops s s'

section Operations

variable [DecidableEq F]

omit [DecidableEq F] in
theorem hidden_or_metadata_of_mem_heartbeatOps {order : RangeOrder} {executorID : String}
    (hid : SlashFree executorID) {request : HeartbeatState F} {reportedShards : Value F} {op : Op (Value F)}
    (hop : op ∈ heartbeatOps pre ns order executorID request reportedShards) :
    Hidden pre ns op ∨ ∃ name text, request.metadata.lookup name = some text ∧
      op = .put (buildMetadataKey pre ns executorID name) (.text text) := by
  obtain ⟨key, value, rfl⟩ := exists_put_of_mem_heartbeatOps hop
  rcases put_mem_heartbeatOps hop with ⟨name, text, hlookup, rfl, rfl⟩ | ⟨rfl, -⟩ | ⟨rfl, -⟩ | ⟨rfl, -⟩ | ⟨host, rfl, -⟩
  · exact .inr ⟨name, text, hlookup, rfl⟩
  all_goals exact .inl (.executor hid (by decide) (by decide) (by decide) _)

theorem recordHeartbeat_written [Float64 F] (order : RangeOrder) {executorID : String}
    (hid : SlashFree executorID) (request : HeartbeatState F) (fate : Fate) (s : Store (Value F)) :
    Written pre ns s (recordHeartbeat pre ns order executorID request fate s).2 := by
  rcases hcall : recordHeartbeat pre ns order executorID request fate s with ⟨result, s'⟩
  rcases recordHeartbeat_cases hcall with ⟨hsame, -⟩ | ⟨reportedShards, -, happlied⟩
  · exact .inl hsame
  · refine .inr ⟨_, ?_, happlied⟩
    split
    · rename_i hunchanged
      have hquiet : ∀ op ∈ heartbeatOps pre ns order executorID request reportedShards, Quiet pre ns s op := by
        intro op hop
        refine (hidden_or_metadata_of_mem_heartbeatOps hid hop).imp_right ?_
        rintro ⟨name, text, hlookup, rfl⟩
        have hcmp := List.all_eq_true.mp hunchanged (.value (buildMetadataKey pre ns executorID name) (.text text))
          (List.mem_map.mpr ⟨(name, text), RangeOrder.mem_range_iff.mpr hlookup, rfl⟩)
        dsimp only [Cmp.holds] at hcmp
        split at hcmp
        · rename_i kv hget
          exact ⟨executorID, name, text, kv, hid, rfl, hget, of_decide_eq_true hcmp⟩
        · cases hcmp
      refine ⟨fun op hop => ?_, .inr hquiet⟩
      refine (hidden_or_metadata_of_mem_heartbeatOps hid hop).imp_right ?_
      rintro ⟨name, text, -, rfl⟩
      exact .inl (.metadata hid name text)
    · refine .of_visible fun op hop => (hidden_or_metadata_of_mem_heartbeatOps hid hop).imp_right ?_
      rintro ⟨name, text, -, rfl⟩
      exact .metadata hid name text

theorem assignShards_written (order : RangeOrder) {request : AssignShardsRequest F}
    (hassigned : ∀ executorID ∈ request.newState.shardAssignments, SlashFree executorID)
    (hdeleted : ∀ executorID ∈ request.executorsToDelete, SlashFree executorID) (guard : Guarded (Value F))
    (fate : Fate) (s : Store (Value F)) :
    Written pre ns s (assignShards pre ns order request guard fate s).2 := by
  refine (assignShards_applied pre ns order request guard fate s).imp_right fun happlied => ⟨_, ?_, happlied⟩
  refine .of_visible fun op hop => .inr ?_
  cases op with
  | put key value =>
    obtain ⟨executorID, state, hlookup, -, rfl, rfl⟩ := put_mem_assignmentOps.mp hop
    exact .record (hassigned executorID (Map.mem_iff_exists_lookup.mpr ⟨_, hlookup⟩)) _
  | delete range =>
    obtain ⟨executorID, hmem, rfl⟩ := delete_mem_assignmentOps.mp hop
    exact .executor (hdeleted executorID hmem)
  | get range => simp [assignmentOps] at hop

omit [DecidableEq F] in
theorem hidden_statistics {executorID : String} (hid : SlashFree executorID) (payload : Value F) :
    Hidden pre ns (.put (statisticsKey pre ns executorID) payload) :=
  .executor hid (by decide) (by decide) (by decide) payload

theorem recordShardStatistics_written [Float64 F] {executorID : String} (hid : SlashFree executorID)
    (assignmentModRevision : Int) (statistics : Map String (ShardStatistics F)) (fate : Fate)
    (s : Store (Value F)) :
    Written pre ns s (recordShardStatistics pre ns executorID assignmentModRevision statistics fate s).2 := by
  rcases hcall : recordShardStatistics pre ns executorID assignmentModRevision statistics fate s with ⟨result, s'⟩
  rcases recordShardStatistics_cases hcall with hsame | ⟨-, happlied⟩
  · exact .inl hsame
  · exact .inr ⟨_, .of_hidden (List.forall_mem_singleton.mpr (hidden_statistics hid _)), happlied⟩

theorem recordShardStatisticsUpdate_written [Float64 F] {executorID : String} (hid : SlashFree executorID)
    (statistics : Map String (ShardStatistics F)) (fate : Fate) (s : Store (Value F)) :
    Written pre ns s (recordShardStatisticsUpdate pre ns executorID statistics fate s).2 := by
  rcases hcall : recordShardStatisticsUpdate pre ns executorID statistics fate s with ⟨result, s'⟩
  rcases recordShardStatisticsUpdate_cases hcall with ⟨hsame, -⟩ | ⟨-, happlied⟩ | ⟨-, happlied⟩
  · exact .inl hsame
  · exact .inr ⟨_, .of_hidden (List.forall_mem_singleton.mpr (.statistics hid)), happlied⟩
  · exact .inr ⟨_, .of_hidden (List.forall_mem_singleton.mpr (hidden_statistics hid _)), happlied⟩

theorem resetNamespace_written (pre ns : String) (fate : Fate) (s : Store (Value F)) :
    Written pre ns s (resetNamespace pre ns fate s).2 := by
  rw [resetNamespace_store]
  refine (Txn.send_flat_store ..).imp_right fun happlied => ⟨_, ?_, happlied⟩
  exact Writes.of_visible (List.forall_mem_singleton.mpr (.inr .reset))

theorem commitBatch_written {call : CommitOps (Value F)} (hops : BatchOps pre ns call) {fate : Fate}
    {progress : Progress (Value F)} (h : call.commitBatch fate s = (progress, s')) : Written pre ns s s' := by
  rcases CommitOps.commitBatch_cases h with ⟨hsame, -⟩ | ⟨-, batch, -, hbatch, -, happlied, -⟩
  · exact .inl hsame
  · refine .inr ⟨_, ?_, happlied⟩
    rcases hops with ⟨hvisible, hextra⟩ | ⟨hhidden, hextra⟩
    · rw [hextra]
      exact .of_visible fun op hop => .inr (hvisible op (CommitOps.mem_of_mem_batch hbatch hop))
    · rw [hextra, List.append_nil]
      exact .of_hidden fun op hop => hhidden op (CommitOps.mem_of_mem_batch hbatch hop)

end Operations

section Calls

variable {call : CommitOps (Value F)} {maxEtcdTxnOps : Int} {guard : Guarded (Value F)}

theorem batchOps_of_visible {ops : List (Op (Value F))}
    (h : commitAssignmentOps pre ns maxEtcdTxnOps ops guard = .running call)
    (hops : ∀ op ∈ ops, Visible pre ns op) : BatchOps pre ns call := by
  obtain ⟨rfl, hextra, -⟩ := commitOps_running h
  exact .inl ⟨hops, hextra⟩

theorem batchOps_of_hidden {ops : List (Op (Value F))} (h : commitOps maxEtcdTxnOps ops guard [] = .running call)
    (hops : ∀ op ∈ ops, Hidden pre ns op) : BatchOps pre ns call := by
  obtain ⟨rfl, hextra, -⟩ := commitOps_running h
  exact .inr ⟨hops, hextra⟩

theorem batchOps_deleteExecutors {executorIDs : List String} (hids : ∀ executorID ∈ executorIDs, SlashFree executorID)
    (h : deleteExecutors pre ns maxEtcdTxnOps executorIDs guard = .running call) : BatchOps pre ns call := by
  refine batchOps_of_visible (deleteExecutors_running h) ?_
  intro op hop
  obtain ⟨executorID, hmem, rfl⟩ := List.mem_map.mp hop
  exact .executor (hids executorID hmem)

theorem batchOps_drainShards {shardIDs : List String}
    (h : drainShards pre ns maxEtcdTxnOps shardIDs = .ok (.running call)) : BatchOps pre ns call := by
  obtain ⟨hvalid, h⟩ := drainShards_running h
  refine batchOps_of_visible h ?_
  intro op hop
  obtain ⟨shardID, hmem, rfl⟩ := List.mem_map.mp hop
  exact .drainedShard (validateShardID_of_mem hvalid hmem)

theorem batchOps_undrainShards {shardIDs : List String}
    (h : undrainShards pre ns maxEtcdTxnOps shardIDs = .ok (.running call)) : BatchOps pre ns call := by
  obtain ⟨hvalid, h⟩ := undrainShards_running h
  refine batchOps_of_visible h ?_
  intro op hop
  obtain ⟨shardID, hmem, rfl⟩ := List.mem_map.mp hop
  exact .undrainedShard (validateShardID_of_mem hvalid hmem)

theorem batchOps_drainHosts {order : RangeOrder} {hosts : List DrainedHost} {now : Time}
    (h : drainHosts pre ns order maxEtcdTxnOps hosts now s = .ok (.running call)) : BatchOps pre ns call := by
  obtain ⟨ops, hcommit, hops⟩ := drainHosts_running h
  refine batchOps_of_hidden hcommit fun op hop => ?_
  obtain ⟨hostname, host, rfl⟩ := hops op hop
  exact .drainedHost hostname host

theorem batchOps_undrainHosts {hostnames : List String}
    (h : undrainHosts pre ns maxEtcdTxnOps hostnames = .ok (.running call)) : BatchOps pre ns call := by
  refine batchOps_of_hidden (undrainHosts_running h) ?_
  intro op hop
  obtain ⟨hostname, -, rfl⟩ := List.mem_map.mp hop
  exact .undrainedHost hostname

theorem batchOps_deleteShardStats [Float64 F] [DecidableEq F] [Encoding F] {order : RangeOrder} {shardIDs : List String}
    (h : deleteShardStats pre ns order maxEtcdTxnOps shardIDs guard s = .ok (.running call)) :
    BatchOps pre ns call := by
  obtain ⟨ops, hcommit, hops⟩ := deleteShardStats_running h
  refine batchOps_of_hidden hcommit ?_
  intro op hop
  obtain ⟨executorID, hid, rfl | ⟨payload, rfl⟩⟩ := hops op hop
  · exact .statistics hid
  · exact hidden_statistics hid payload

end Calls

/-- Every call in progress commits operations of one of the two kinds. -/
def Writers.Sound (pre ns : String) (w : Writers F) : Prop := ∀ call ∈ w.calls, BatchOps pre ns call

theorem Writers.Sound.begin {w : Writers F} (h : w.Sound pre ns) {progress : Except String (Progress (Value F))}
    (hcall : ∀ call, progress = .ok (.running call) → BatchOps pre ns call) : (w.begin progress).Sound pre ns := by
  unfold Writers.begin
  split
  · exact transition.forall_mem_concat h (hcall _ rfl)
  · exact h
  · exact h

theorem Writers.begin_store (w : Writers F) (progress : Except String (Progress (Value F))) :
    (w.begin progress).store = w.store := by
  unfold Writers.begin
  split <;> rfl

/-- Whatever an operation writes, it writes as one of the transactions above. -/
theorem write_written [Float64 F] [DecidableEq F] [Encoding F] {w w' : Writers F} {label : Write F}
    (hsound : w.Sound pre ns) (hids : label.SlashFreeIDs) (h : write pre ns label w = some w') :
    Written pre ns w.store w'.store ∧ w'.Sound pre ns := by
  cases label with
  | recordHeartbeat order executorID request fate =>
    cases h
    exact ⟨recordHeartbeat_written order hids request fate w.store, hsound⟩
  | assignShards order request guard fate =>
    cases h
    exact ⟨assignShards_written order hids.1 hids.2 guard fate w.store, hsound⟩
  | recordShardStatistics executorID assignmentModRevision statistics fate =>
    cases h
    exact ⟨recordShardStatistics_written hids assignmentModRevision statistics fate w.store, hsound⟩
  | recordShardStatisticsUpdate executorID statistics fate =>
    cases h
    exact ⟨recordShardStatisticsUpdate_written hids statistics fate w.store, hsound⟩
  | resetNamespace fate =>
    cases h
    exact ⟨resetNamespace_written pre ns fate w.store, hsound⟩
  | deleteExecutors maxEtcdTxnOps executorIDs guard =>
    cases h
    exact ⟨.inl (w.begin_store _), hsound.begin fun call hcall => batchOps_deleteExecutors hids (Except.ok.inj hcall)⟩
  | deleteShardStats order maxEtcdTxnOps shardIDs guard =>
    cases h
    exact ⟨.inl (w.begin_store _), hsound.begin fun call hcall => batchOps_deleteShardStats hcall⟩
  | drainShards maxEtcdTxnOps shardIDs =>
    cases h
    exact ⟨.inl (w.begin_store _), hsound.begin fun call hcall => batchOps_drainShards hcall⟩
  | undrainShards maxEtcdTxnOps shardIDs =>
    cases h
    exact ⟨.inl (w.begin_store _), hsound.begin fun call hcall => batchOps_undrainShards hcall⟩
  | drainHosts order maxEtcdTxnOps hosts now =>
    cases h
    exact ⟨.inl (w.begin_store _), hsound.begin fun call hcall => batchOps_drainHosts hcall⟩
  | undrainHosts maxEtcdTxnOps hostnames =>
    cases h
    exact ⟨.inl (w.begin_store _), hsound.begin fun call hcall => batchOps_undrainHosts hcall⟩
  | commitBatch i fate =>
    dsimp only [write] at h
    split at h
    · cases h
    · rename_i call hcall
      have hops := hsound call (List.mem_of_getElem? hcall)
      split at h
      · rename_i call' s' hcommit
        cases h
        refine ⟨commitBatch_written hops hcommit, transition.forall_mem_set hsound ?_⟩
        have hsame := CommitOps.sameCall_of_running hcommit
        unfold BatchOps at hops ⊢
        rwa [hsame.ops, hsame.extraOps]
      · rename_i result s' hcommit
        cases h
        exact ⟨commitBatch_written hops hcommit, transition.forall_mem_eraseIdx hsound⟩

end Spec

end executorstore
