import ShardManager.Abstract.Transition
import ShardManager.Etcd.Frame
import ShardManager.ExecutorStore.Writers
import ShardManager.LeaderStore.Election
import ShardManager.Namespaces

open golang etcd etcdkeys store types leaderstore

namespace executorstore

open etcdtypes (Value Encoding)

variable {F : Type}

/-- The operations of one namespace, on the executor store and on its election. -/
inductive Operation (F : Type) where
  | getState (order : RangeOrder)
  | getAssignmentState
  | write (label : Write F)
  /-- The transaction of `Campaign` that enters the election. -/
  | campaign (lease host : String) (fate : Fate)
  | resign (lease : String) (rev : Int) (fate : Fate)

/-- All that an operation returns. A batched call answers with its progress. -/
inductive Answer (F : Type) where
  | state (result : Except String (NamespaceState F))
  | assignmentState (result : Except String AssignmentState)
  | stored (result : Except StoreError Unit)
  | assigned (result : Except AssignShardsError Unit)
  | call (result : Except String (Progress (Value F)))
  | response (result : Except CommitError (TxnResponse (Value F)))

section Model

variable (pre ns : String) [Float64 F] [DecidableEq F] [Encoding F]

/-- What a writing operation returns. -/
def answerOf (w : Writers F) : Write F → Answer F
  | .recordHeartbeat order executorID request fate =>
    .stored (recordHeartbeat pre ns order executorID request fate w.store).1
  | .assignShards order request guard fate => .assigned (assignShards pre ns order request guard fate w.store).1
  | .recordShardStatistics executorID assignmentModRevision statistics fate =>
    .stored (recordShardStatistics pre ns executorID assignmentModRevision statistics fate w.store).1
  | .recordShardStatisticsUpdate executorID statistics fate =>
    .stored (recordShardStatisticsUpdate pre ns executorID statistics fate w.store).1
  | .resetNamespace fate => .stored (resetNamespace pre ns fate w.store).1
  | .deleteExecutors maxEtcdTxnOps executorIDs guard =>
    .call (.ok (deleteExecutors pre ns maxEtcdTxnOps executorIDs guard))
  | .deleteShardStats order maxEtcdTxnOps shardIDs guard =>
    .call (deleteShardStats pre ns order maxEtcdTxnOps shardIDs guard w.store)
  | .drainShards maxEtcdTxnOps shardIDs => .call (drainShards pre ns maxEtcdTxnOps shardIDs)
  | .undrainShards maxEtcdTxnOps shardIDs => .call (undrainShards pre ns maxEtcdTxnOps shardIDs)
  | .drainHosts order maxEtcdTxnOps hosts now => .call (drainHosts pre ns order maxEtcdTxnOps hosts now w.store)
  | .undrainHosts maxEtcdTxnOps hostnames => .call (undrainHosts pre ns maxEtcdTxnOps hostnames)
  | .commitBatch i fate =>
    match w.calls[i]? with
    | none => .call (.error "no call in progress")
    | some call => .call (.ok (call.commitBatch fate w.store).1)

/-- An operation of a namespace, with what it returns. -/
def perform : Operation F → Writers F → Option (Answer F × Writers F)
  | .getState order, w => some (.state (getState pre ns order w.store), w)
  | .getAssignmentState, w => some (.assignmentState (getAssignmentState pre ns w.store), w)
  | .write label, w => (write pre ns label w).map fun w' => (answerOf pre ns w label, w')
  | .campaign lease host fate, w =>
    let (result, s) := (campaignTxn pre ns lease host).send fate w.store
    some (.response result, { w with store := s })
  | .resign lease rev fate, w =>
    let (result, s) := (Txn.flat [.modRevision (candidateKey pre ns lease) rev]
      [.delete (.key (candidateKey pre ns lease))] []).send fate w.store
    some (.response result, { w with store := s })

end Model

/-- The guard of a call is that of an election of its own namespace. -/
def Guarded.Of (pre ns : String) (guard : Guarded (Value F)) : Prop :=
  ∀ cmps, guard = .txn cmps → ∀ cmp ∈ cmps, ∃ lease rev, cmp = .modRevision (candidateKey pre ns lease) rev

def Operation.GuardOf (pre ns : String) : Operation F → Prop
  | .write (.assignShards _ _ guard _) => guard.Of pre ns
  | .write (.deleteExecutors _ _ guard) => guard.Of pre ns
  | .write (.deleteShardStats _ _ _ guard) => guard.Of pre ns
  | _ => True

/-- One etcd cluster that serves several namespaces: its store, the batched
calls in progress on each namespace, and, kept for reasoning only, the keys
that operations on each namespace have put. -/
structure Cluster (F : Type) where
  store : Store (Value F)
  calls : String → List (CommitOps (Value F))
  written : List (String × String)

namespace Cluster

def initial : Cluster F := ⟨.empty, fun _ => [], []⟩

/-- What an operation on a namespace works on. -/
def of (c : Cluster F) (ns : String) : Writers F := ⟨c.store, c.calls ns⟩

/-- The keys whose stored value is not the one from before. -/
def puts (s s' : Store (Value F)) : List String :=
  s'.kvs.keys.filter fun key => decide (s'.modRevision key ≠ s.modRevision key)

/-- The cluster after an operation on a namespace. -/
def after (c : Cluster F) (ns : String) (w : Writers F) : Cluster F where
  store := w.store
  calls := Function.update c.calls ns w.calls
  written := c.written ++ (puts c.store w.store).map (ns, ·)

def step (pre : String) [Float64 F] [DecidableEq F] [Encoding F] :
    String × Operation F → Cluster F → Option (Cluster F)
  | (ns, op), c => (perform pre ns op (c.of ns)).map fun result => c.after ns result.2

end Cluster

/-- Whatever was done to a cluster, an operation on `ns` leaves the keys put by
operations on `other` as they are, and it would have returned and done the same
had any of them never been put. -/
def Isolated (F : Type) [Float64 F] [DecidableEq F] [Encoding F] (pre ns other : String) : Prop :=
  ∀ c : Cluster F, transition.Run (Cluster.step pre) (fun _ label => label.2.GuardOf pre label.1) .initial c →
    ∀ (op : Operation F) (answer : Answer F) (w : Writers F), op.GuardOf pre ns →
      perform pre ns op (c.of ns) = some (answer, w) →
      ∀ hidden : String → Bool, (∀ key, hidden key = true → (other, key) ∈ c.written) →
        (∀ key, hidden key = true → w.store.get key = c.store.get key) ∧
        perform pre ns op ⟨c.store.without hidden, c.calls ns⟩ = some (answer, ⟨w.store.without hidden, w.calls⟩)

section Territory

/-- The keys of a namespace: what lies below its prefix, and its version. -/
def Owns (pre ns key : String) : Prop :=
  hasPrefix key (buildNamespacePrefix pre ns) = true ∨ key = buildAssignmentVersionKey pre ns

variable {pre ns : String}

theorem owns_of_hasPrefix {dir key : String} (hdir : hasPrefix dir (buildNamespacePrefix pre ns) = true)
    (hkey : hasPrefix key dir = true) : Owns pre ns key := by
  rw [hasPrefix_iff] at hdir hkey
  exact .inl (hasPrefix_iff.mpr (hdir.trans hkey))

theorem within_of_hasPrefix {dir : String} (hdir : hasPrefix dir (buildNamespacePrefix pre ns) = true) :
    (Range.withPrefix dir).Within (Owns pre ns) :=
  fun _ hkey => owns_of_hasPrefix hdir hkey

theorem within_key {key : String} (hkey : Owns pre ns key) : (Range.key key).Within (Owns pre ns) := by
  intro candidate hcandidate
  rw [of_decide_eq_true hcandidate]
  exact hkey

theorem hasPrefix_executorsPrefix : hasPrefix (buildExecutorsPrefix pre ns) (buildNamespacePrefix pre ns) = true :=
  hasPrefix_append _ _

theorem hasPrefix_executorIDPrefix (executorID : String) :
    hasPrefix (buildExecutorIDPrefix pre ns executorID) (buildNamespacePrefix pre ns) = true := by
  simp [hasPrefix_iff, buildExecutorIDPrefix, buildExecutorsPrefix]

theorem owns_executorKey {executorID : String} {kt : ExecutorKeyType} :
    Owns pre ns (buildExecutorKey pre ns executorID kt) :=
  owns_of_hasPrefix (hasPrefix_executorIDPrefix executorID) (hasPrefix_append _ _)

theorem owns_metadataKey {executorID name : String} : Owns pre ns (buildMetadataKey pre ns executorID name) := by
  refine owns_of_hasPrefix (hasPrefix_executorIDPrefix executorID) ?_
  simp [hasPrefix_iff, buildMetadataKey, buildExecutorKey]

theorem owns_drainedShardKey {shardID : String} : Owns pre ns (buildDrainedShardKey pre ns shardID) := by
  refine owns_of_hasPrefix ?_ (hasPrefix_append (buildDrainedShardsPrefix pre ns) _)
  exact hasPrefix_append _ _

theorem owns_drainedHostKey {host : String} : Owns pre ns (buildDrainedHostKey pre ns host) := by
  refine owns_of_hasPrefix ?_ (hasPrefix_append (buildDrainedHostsPrefix pre ns) _)
  exact hasPrefix_append _ _

theorem owns_candidateKey {lease : String} : Owns pre ns (candidateKey pre ns lease) := by
  refine .inl ?_
  simp [hasPrefix_iff, candidateKey, electionKey, buildNamespacePrefix]

theorem touch_within : (touchAssignmentVersion pre ns : Op (Value F)).Within (Owns pre ns) := .inr rfl

theorem statistics_within {executorID : String} {op : Op (Value F)}
    (h : op = .delete (.key (statisticsKey pre ns executorID)) ∨
      ∃ payload, op = .put (statisticsKey pre ns executorID) payload) : op.Within (Owns pre ns) := by
  rcases h with rfl | ⟨payload, rfl⟩
  · exact within_key owns_executorKey
  · exact owns_executorKey

theorem heartbeatOps_within {order : RangeOrder} {executorID : String} {request : HeartbeatState F}
    {reportedShards : Value F} :
    ∀ op ∈ heartbeatOps pre ns order executorID request reportedShards, op.Within (Owns pre ns) := by
  intro op hop
  obtain ⟨key, value, rfl⟩ := exists_put_of_mem_heartbeatOps hop
  rcases put_mem_heartbeatOps hop with ⟨name, text, -, rfl, -⟩ | ⟨rfl, -⟩ | ⟨rfl, -⟩ | ⟨rfl, -⟩ | ⟨host, rfl, -⟩
  · exact owns_metadataKey
  all_goals exact owns_executorKey

theorem assignmentOps_within {order : RangeOrder} {request : AssignShardsRequest F} :
    ∀ op ∈ assignmentOps pre ns order request, op.Within (Owns pre ns) := by
  intro op hop
  cases op with
  | put key value =>
    obtain ⟨executorID, state, -, -, rfl, -⟩ := put_mem_assignmentOps.mp hop
    exact owns_executorKey
  | delete range =>
    obtain ⟨executorID, -, rfl⟩ := delete_mem_assignmentOps.mp hop
    exact within_of_hasPrefix (hasPrefix_executorIDPrefix executorID)
  | get range => simp [assignmentOps] at hop

theorem guard_within {cmps : List (Cmp (Value F))} {guard : Guarded (Value F)} (h : guard.Of pre ns)
    (hguard : guard = .txn cmps) : ∀ cmp ∈ cmps, cmp.Within (Owns pre ns) := by
  intro cmp hcmp
  obtain ⟨lease, rev, rfl⟩ := h cmps hguard cmp hcmp
  exact owns_candidateKey

theorem assignShardsTxn_within (order : RangeOrder) (request : AssignShardsRequest F) {cmps : List (Cmp (Value F))}
    (hcmps : ∀ cmp ∈ cmps, cmp.Within (Owns pre ns)) :
    (assignShardsTxn pre ns order request cmps).Within (Owns pre ns) := by
  refine ⟨hcmps, List.forall_mem_singleton.mpr ⟨?_, ?_, ?_⟩, by simp [assignShardsTxn]⟩
  · intro cmp hcmp
    obtain ⟨⟨executorID, revision⟩, -, rfl⟩ := List.mem_map.mp hcmp
    exact owns_executorKey
  · exact List.forall_mem_append.mpr ⟨assignmentOps_within, List.forall_mem_singleton.mpr touch_within⟩
  · intro op hop
    obtain ⟨⟨executorID, revision⟩, -, rfl⟩ := List.mem_map.mp hop
    exact within_key owns_executorKey

/-- A batched call stays in its namespace. -/
structure CallWithin (pre ns : String) (call : CommitOps (Value F)) : Prop where
  ops : ∀ op ∈ call.ops, op.Within (Owns pre ns)
  extraOps : ∀ op ∈ call.extraOps, op.Within (Owns pre ns)
  guard : ∀ cmps, call.guard = .txn cmps → ∀ cmp ∈ cmps, cmp.Within (Owns pre ns)

theorem CallWithin.of_commitOps {maxEtcdTxnOps : Int} {ops extraOps : List (Op (Value F))} {guard : Guarded (Value F)}
    {call : CommitOps (Value F)} (h : commitOps maxEtcdTxnOps ops guard extraOps = .running call)
    (hops : ∀ op ∈ ops, op.Within (Owns pre ns)) (hextra : ∀ op ∈ extraOps, op.Within (Owns pre ns))
    (hguard : guard.Of pre ns) : CallWithin pre ns call := by
  obtain ⟨rfl, rfl, rfl, -⟩ := commitOps_running h
  exact ⟨hops, hextra, fun cmps hcmps => guard_within hguard hcmps⟩

theorem nopGuard_of : (nopGuard : Guarded (Value F)).Of pre ns := by
  intro cmps hcmps cmp hcmp
  cases hcmps
  cases hcmp

end Territory

section Framed

variable {pre ns : String} [Float64 F] [DecidableEq F]

theorem recordHeartbeat_framed (order : RangeOrder) (executorID : String) (request : HeartbeatState F) (fate : Fate) :
    Framed (Owns pre ns) fun s => recordHeartbeat pre ns order executorID request fate s := by
  unfold recordHeartbeat
  cases marshalReports request.reportedShards with
  | error message => exact .pure _
  | ok reportedShards =>
    have hcmps : ∀ cmp ∈ metadataUnchanged pre ns order executorID request, cmp.Within (Owns pre ns) := by
      intro cmp hcmp
      obtain ⟨⟨name, text⟩, -, rfl⟩ := List.mem_map.mp hcmp
      exact owns_metadataKey
    have hops : ∀ op ∈ heartbeatOps pre ns order executorID request reportedShards, op.Within (Owns pre ns) :=
      heartbeatOps_within
    have htouched := List.forall_mem_append.mpr ⟨hops, List.forall_mem_singleton.mpr (touch_within (F := F))⟩
    refine (Framed.send (.flat hcmps hops htouched) fate).map (fun
      | .error cause => .error (.other ("record heartbeat: " ++ cause.message))
      | .ok _ => .ok ()) fun s => ?_
    dsimp only
    split <;> rename_i hsend <;> rw [hsend]

omit [Float64 F] in
theorem assignShards_framed (order : RangeOrder) (request : AssignShardsRequest F) {guard : Guarded (Value F)}
    (hguard : guard.Of pre ns) (fate : Fate) :
    Framed (Owns pre ns) fun s => assignShards pre ns order request guard fate s := by
  unfold assignShards
  split
  · exact .pure _
  · cases hcmps : guard with
    | error message => exact .pure _
    | invalidTransaction => exact .pure _
    | txn cmps =>
      refine (Framed.send (assignShardsTxn_within order request (guard_within hguard hcmps)) fate).map (fun
        | .error cause => .error (.commit cause)
        | .ok response => checkAssignShardsResponse pre ns order request response) fun s => ?_
      dsimp only
      split <;> rename_i hsend <;> rw [hsend]

theorem recordShardStatistics_framed (executorID : String) (assignmentModRevision : Int)
    (statistics : Map String (ShardStatistics F)) (fate : Fate) :
    Framed (Owns pre ns) fun s => recordShardStatistics pre ns executorID assignmentModRevision statistics fate s := by
  unfold recordShardStatistics
  cases marshalStatistics statistics with
  | error message => exact .pure _
  | ok payload =>
    have hput : Op.Within (Owns pre ns) (.put (statisticsKey pre ns executorID) payload) := owns_executorKey
    have hcmp : Cmp.Within (V := Value F) (Owns pre ns)
        (.modRevision (assignedStateKey pre ns executorID) assignmentModRevision) := owns_executorKey
    refine (Framed.send (.flat (List.forall_mem_singleton.mpr hcmp) (List.forall_mem_singleton.mpr hput)
      (List.forall_mem_nil _)) fate).map (fun
      | .error cause => .error (.other ("put executor shard statistics: " ++ cause.message))
      | .ok response => if response.succeeded then .ok ()
        else .error ⟨"version conflict: executor assignment changed", true⟩) fun s => ?_
    dsimp only
    split <;> rename_i hsend <;> rw [hsend]
    dsimp only
    split <;> rfl

theorem recordShardStatisticsUpdate_framed (executorID : String) (statistics : Map String (ShardStatistics F))
    (fate : Fate) : Framed (Owns pre ns) fun s => recordShardStatisticsUpdate pre ns executorID statistics fate s := by
  unfold recordShardStatisticsUpdate
  split
  · have hdelete : Op.Within (V := Value F) (Owns pre ns) (.delete (.key (statisticsKey pre ns executorID))) :=
      within_key owns_executorKey
    refine (Framed.send (.flat (List.forall_mem_nil _) (List.forall_mem_singleton.mpr hdelete)
      (List.forall_mem_nil _)) fate).map (fun
      | .error cause => .error (.other
          s!"failed to delete shard statistics for executor {executorID}: {cause.message}")
      | .ok _ => .ok ()) fun s => ?_
    split <;> rename_i hsend <;> rw [hsend]
  · cases marshalStatistics statistics with
    | error message => exact .pure _
    | ok payload =>
      have hput : Op.Within (Owns pre ns) (.put (statisticsKey pre ns executorID) payload) := owns_executorKey
      refine (Framed.send (.flat (List.forall_mem_nil _) (List.forall_mem_singleton.mpr hput)
        (List.forall_mem_nil _)) fate).map (fun
        | .error cause => .error (.other
            s!"failed to put shard statistics for executor {executorID}: {cause.message}")
        | .ok _ => .ok ()) fun s => ?_
      dsimp only
      split <;> rename_i hsend <;> rw [hsend]

omit [Float64 F] in
theorem resetNamespace_framed (fate : Fate) :
    Framed (Owns pre ns) fun s : Store (Value F) => resetNamespace pre ns fate s := by
  have hdelete : Op.Within (V := Value F) (Owns pre ns) (.delete (.withPrefix (buildNamespacePrefix pre ns))) :=
    fun key hkey => .inl hkey
  have hops : ∀ op ∈ [.delete (.withPrefix (buildNamespacePrefix pre ns)), touchAssignmentVersion (F := F) pre ns],
      op.Within (Owns pre ns) := List.forall_mem_cons.mpr ⟨hdelete, List.forall_mem_singleton.mpr touch_within⟩
  refine (Framed.send (.flat (List.forall_mem_nil _) hops (List.forall_mem_nil _)) fate).map (fun
    | .error cause => .error (.other
        s!"delete namespace prefix {quote (buildNamespacePrefix pre ns)}: {cause.message}")
    | .ok _ => .ok ()) fun s => ?_
  unfold resetNamespace
  split <;> rename_i hsend <;> rw [hsend]

omit [Float64 F] in
theorem commitBatch_framed {call : CommitOps (Value F)} (h : CallWithin pre ns call) (fate : Fate) :
    Framed (Owns pre ns) fun s => call.commitBatch fate s := by
  unfold CommitOps.commitBatch
  cases hguard : call.guard with
  | error message => exact .pure _
  | invalidTransaction => exact .pure _
  | txn cmps =>
    cases hbatch : call.batch with
    | none => exact .pure _
    | some batch =>
      have hops : ∀ op ∈ batch ++ call.extraOps, op.Within (Owns pre ns) :=
        List.forall_mem_append.mpr ⟨fun op hop => h.ops op (CommitOps.mem_of_mem_batch hbatch hop), h.extraOps⟩
      refine (Framed.send (.flat (h.guard cmps hguard) hops (List.forall_mem_nil _)) fate).map (fun
        | .error cause => .returned (.error (.commit cause))
        | .ok response => if response.succeeded then call.advance response else .returned (.error .guardFailed))
        fun s => ?_
      dsimp only [CommitOps.batchTxn]
      split <;> rename_i hsend <;> rw [hsend]
      dsimp only
      split <;> rfl

end Framed

section Reads

variable {pre ns : String} {s : Store (Value F)} {hidden : String → Bool}
  (hdisjoint : ∀ key, Owns pre ns key → hidden key = false)

include hdisjoint

theorem range_executors :
    (s.without hidden).range (.withPrefix (buildExecutorsPrefix pre ns)) =
      s.range (.withPrefix (buildExecutorsPrefix pre ns)) :=
  Store.range_without hdisjoint (within_of_hasPrefix hasPrefix_executorsPrefix)

theorem range_drainedShards :
    (s.without hidden).range (.withPrefix (buildDrainedShardsPrefix pre ns)) =
      s.range (.withPrefix (buildDrainedShardsPrefix pre ns)) :=
  Store.range_without hdisjoint (within_of_hasPrefix (hasPrefix_append _ _))

theorem range_drainedHosts :
    (s.without hidden).range (.withPrefix (buildDrainedHostsPrefix pre ns)) =
      s.range (.withPrefix (buildDrainedHostsPrefix pre ns)) :=
  Store.range_without hdisjoint (within_of_hasPrefix (hasPrefix_append _ _))

theorem getState_without [Encoding F] (order : RangeOrder) :
    getState pre ns order (s.without hidden) = getState pre ns order s := by
  unfold getState
  rw [range_executors hdisjoint, range_drainedShards hdisjoint, range_drainedHosts hdisjoint]
  rfl

theorem getAssignmentState_without [Encoding F] :
    getAssignmentState pre ns (s.without hidden) = getAssignmentState pre ns s := by
  unfold getAssignmentState
  rw [range_executors hdisjoint, range_drainedShards hdisjoint,
    Store.modRevision_without (hdisjoint _ (.inr rfl))]
  rfl

end Reads

/-- An operation, run on what it finds, stays in its namespace and leaves
behind calls that will. -/
structure Confined (pre ns : String) (w : Writers F) (run : Writers F → Option (Answer F × Writers F)) : Prop where
  get : ∀ {answer w'}, run w = some (answer, w') → ∀ key, ¬Owns pre ns key → w'.store.get key = w.store.get key
  without : ∀ {answer w'}, run w = some (answer, w') → ∀ hidden : String → Bool,
    (∀ key, Owns pre ns key → hidden key = false) →
    run ⟨w.store.without hidden, w.calls⟩ = some (answer, ⟨w'.store.without hidden, w'.calls⟩)
  calls : ∀ {answer w'}, run w = some (answer, w') → ∀ call ∈ w'.calls, CallWithin pre ns call

/-- The calls under way after one of them has sent a batch. -/
def callsAfter (calls : List (CommitOps (Value F))) (i : Nat) : Progress (Value F) → List (CommitOps (Value F))
  | .running call => calls.set i call
  | .returned _ => calls.eraseIdx i

section Confined

variable {pre ns : String} {w : Writers F} (hcalls : ∀ call ∈ w.calls, CallWithin pre ns call)

include hcalls

theorem Confined.of_framed {α : Type} {f : Store (Value F) → α × Store (Value F)} (hf : Framed (Owns pre ns) f)
    (toAnswer : α → Answer F) :
    Confined pre ns w fun w => some (toAnswer (f w.store).1, { w with store := (f w.store).2 }) where
  get := by
    intro answer w' h key hkey
    cases h
    exact hf.get w.store key hkey
  without := by
    intro answer w' h hidden hdisjoint
    cases h
    dsimp only
    rw [hf.without w.store hidden hdisjoint]
  calls := by
    intro answer w' h
    cases h
    exact hcalls

theorem Confined.of_begin (read : Store (Value F) → Except String (Progress (Value F)))
    (hread : ∀ hidden : String → Bool, (∀ key, Owns pre ns key → hidden key = false) →
      read (w.store.without hidden) = read w.store)
    (hcall : ∀ call, read w.store = .ok (.running call) → CallWithin pre ns call) :
    Confined pre ns w fun w => some (.call (read w.store), w.begin (read w.store)) where
  get := by
    intro answer w' h key hkey
    cases h
    rw [w.begin_store]
  without := by
    intro answer w' h hidden hdisjoint
    cases h
    dsimp only
    rw [hread hidden hdisjoint]
    unfold Writers.begin
    split <;> rfl
  calls := by
    intro answer w' h call hmem
    cases h
    unfold Writers.begin at hmem
    split at hmem
    · rename_i begun hbegun
      rcases List.mem_append.mp hmem with hmem | hmem
      · exact hcalls call hmem
      · rw [List.mem_singleton.mp hmem]
        exact hcall begun hbegun
    · exact hcalls call hmem
    · exact hcalls call hmem

/-- A call with operations that only depend on its arguments. -/
theorem Confined.of_commitOps {progress : Except String (Progress (Value F))} {maxEtcdTxnOps : Int}
    {ops extraOps : List (Op (Value F))} {guard : Guarded (Value F)}
    (hprogress : ∀ call, progress = .ok (.running call) → commitOps maxEtcdTxnOps ops guard extraOps = .running call)
    (hops : ∀ op ∈ ops, op.Within (Owns pre ns)) (hextra : ∀ op ∈ extraOps, op.Within (Owns pre ns))
    (hguard : guard.Of pre ns) : Confined pre ns w fun w => some (.call progress, w.begin progress) :=
  .of_begin hcalls (fun _ => progress) (fun _ _ => rfl) fun call hcall =>
    .of_commitOps (hprogress call hcall) hops hextra hguard

variable [Float64 F] [DecidableEq F] [Encoding F]

theorem Confined.commitBatch (i : Nat) (fate : Fate) :
    Confined pre ns w (perform pre ns (.write (.commitBatch i fate))) := by
  cases hcall : w.calls[i]? with
  | none =>
    have hnone : ∀ s, perform pre ns (.write (.commitBatch i fate)) ⟨s, w.calls⟩ = none := by
      intro s
      simp [perform, write, hcall]
    constructor <;> intro answer w' h <;> cases (hnone w.store).symm.trans h
  | some call =>
    have hwithin := hcalls call (List.mem_of_getElem? hcall)
    have hframed := commitBatch_framed hwithin fate
    have hrun : ∀ s, perform pre ns (.write (.commitBatch i fate)) ⟨s, w.calls⟩ =
        some (.call (.ok (call.commitBatch fate s).1), ⟨(call.commitBatch fate s).2,
          callsAfter w.calls i (call.commitBatch fate s).1⟩) := by
      intro s
      rcases hcommit : call.commitBatch fate s with ⟨progress, s'⟩
      cases progress <;> simp [perform, write, answerOf, hcall, hcommit, callsAfter]
    refine ⟨?_, ?_, ?_⟩
    · intro answer w' h key hkey
      cases (hrun w.store).symm.trans h
      exact hframed.get w.store key hkey
    · intro answer w' h hidden hdisjoint
      cases (hrun w.store).symm.trans h
      rw [hrun, hframed.without w.store hidden hdisjoint]
    · intro answer w' h
      cases (hrun w.store).symm.trans h
      cases hnext : (call.commitBatch fate w.store).1 with
      | running next =>
        have hsame : CommitOps.SameCall call next := CommitOps.sameCall_of_running (Prod.ext hnext rfl)
        exact transition.forall_mem_set hcalls
          ⟨hsame.ops ▸ hwithin.ops, hsame.extraOps ▸ hwithin.extraOps, hsame.guard ▸ hwithin.guard⟩
      | returned result => exact transition.forall_mem_eraseIdx hcalls

theorem deleteShardStats_confined (order : RangeOrder) (maxEtcdTxnOps : Int)
    (shardIDs : List String) {guard : Guarded (Value F)} (hguard : guard.Of pre ns) :
    Confined pre ns w (perform pre ns (.write (.deleteShardStats order maxEtcdTxnOps shardIDs guard))) := by
  refine .of_begin hcalls (deleteShardStats pre ns order maxEtcdTxnOps shardIDs guard) (fun hidden hdisjoint => ?_)
    fun call hcall => ?_
  · unfold deleteShardStats
    rw [range_executors hdisjoint]
  · obtain ⟨ops, hcommit, hops⟩ := deleteShardStats_running hcall
    refine .of_commitOps hcommit (fun op hop => ?_) (List.forall_mem_nil _) hguard
    obtain ⟨executorID, -, hop⟩ := hops op hop
    exact statistics_within hop

theorem drainHosts_confined (order : RangeOrder) (maxEtcdTxnOps : Int) (hosts : List DrainedHost)
    (now : Time) :
    Confined pre ns w (perform pre ns (.write (.drainHosts order maxEtcdTxnOps hosts now))) := by
  refine .of_begin hcalls (drainHosts pre ns order maxEtcdTxnOps hosts now) (fun hidden hdisjoint => ?_)
    fun call hcall => ?_
  · unfold drainHosts
    rw [range_drainedHosts hdisjoint]
  · obtain ⟨ops, hcommit, hops⟩ := drainHosts_running hcall
    refine .of_commitOps hcommit (fun op hop => ?_) (List.forall_mem_nil _) nopGuard_of
    obtain ⟨host, drained, rfl⟩ := hops op hop
    exact owns_drainedHostKey

/-- Every operation of a namespace is confined to it. -/
theorem perform_confined {op : Operation F} (hguard : op.GuardOf pre ns) :
    Confined pre ns w (perform pre ns op) := by
  have htouch : ∀ op ∈ [touchAssignmentVersion (F := F) pre ns], op.Within (Owns pre ns) :=
    List.forall_mem_singleton.mpr touch_within
  cases op with
  | getState order =>
    refine ⟨?_, ?_, ?_⟩ <;> intro answer w' h <;> cases h
    · exact fun _ _ => rfl
    · intro hidden hdisjoint
      rw [perform, getState_without hdisjoint order]
    · exact hcalls
  | getAssignmentState =>
    refine ⟨?_, ?_, ?_⟩ <;> intro answer w' h <;> cases h
    · exact fun _ _ => rfl
    · intro hidden hdisjoint
      rw [perform, getAssignmentState_without hdisjoint]
    · exact hcalls
  | campaign lease host fate =>
    have hwithin : (campaignTxn pre ns lease host : Txn (Value F)).Within (Owns pre ns) :=
      .flat (List.forall_mem_singleton.mpr owns_candidateKey) (List.forall_mem_singleton.mpr owns_candidateKey)
        (List.forall_mem_nil _)
    exact .of_framed hcalls (.send hwithin fate) .response
  | resign lease rev fate =>
    have hwithin : (Txn.flat [.modRevision (candidateKey pre ns lease) rev]
        [.delete (.key (candidateKey pre ns lease))] [] : Txn (Value F)).Within (Owns pre ns) :=
      .flat (List.forall_mem_singleton.mpr owns_candidateKey)
        (List.forall_mem_singleton.mpr (within_key owns_candidateKey)) (List.forall_mem_nil _)
    exact .of_framed hcalls (.send hwithin fate) .response
  | write label =>
    cases label with
    | recordHeartbeat order executorID request fate =>
      exact .of_framed hcalls (recordHeartbeat_framed order executorID request fate) .stored
    | assignShards order request guard fate =>
      exact .of_framed hcalls (assignShards_framed order request hguard fate) .assigned
    | recordShardStatistics executorID assignmentModRevision statistics fate =>
      exact .of_framed hcalls (recordShardStatistics_framed executorID assignmentModRevision statistics fate) .stored
    | recordShardStatisticsUpdate executorID statistics fate =>
      exact .of_framed hcalls (recordShardStatisticsUpdate_framed executorID statistics fate) .stored
    | resetNamespace fate => exact .of_framed hcalls (resetNamespace_framed fate) .stored
    | deleteExecutors maxEtcdTxnOps executorIDs guard =>
      refine .of_commitOps hcalls (fun call hcall => deleteExecutors_running (Except.ok.inj hcall)) ?_ htouch hguard
      intro op hop
      obtain ⟨executorID, -, rfl⟩ := List.mem_map.mp hop
      exact within_of_hasPrefix (hasPrefix_executorIDPrefix executorID)
    | deleteShardStats order maxEtcdTxnOps shardIDs guard =>
      exact deleteShardStats_confined hcalls order maxEtcdTxnOps shardIDs hguard
    | drainShards maxEtcdTxnOps shardIDs =>
      refine .of_commitOps hcalls (fun call hcall => (drainShards_running hcall).2) ?_ htouch nopGuard_of
      intro op hop
      obtain ⟨shardID, -, rfl⟩ := List.mem_map.mp hop
      exact owns_drainedShardKey
    | undrainShards maxEtcdTxnOps shardIDs =>
      refine .of_commitOps hcalls (fun call hcall => (undrainShards_running hcall).2) ?_ htouch nopGuard_of
      intro op hop
      obtain ⟨shardID, -, rfl⟩ := List.mem_map.mp hop
      exact within_key owns_drainedShardKey
    | drainHosts order maxEtcdTxnOps hosts now => exact drainHosts_confined hcalls order maxEtcdTxnOps hosts now
    | undrainHosts maxEtcdTxnOps hostnames =>
      refine .of_commitOps hcalls (fun call hcall => undrainHosts_running hcall) ?_ (List.forall_mem_nil _) nopGuard_of
      intro op hop
      obtain ⟨host, -, rfl⟩ := List.mem_map.mp hop
      exact within_key owns_drainedHostKey
    | commitBatch i fate => exact .commitBatch hcalls i fate

end Confined

section Isolation

variable {pre ns other : String}

theorem directory_of_hasPrefix {ns other : String} (hne : ns ≠ other)
    (h : ns.toList ++ "/".toList <+: other.toList ++ "/".toList) : hasPrefix other (ns ++ "/") = true := by
  rcases List.prefix_concat_iff.mp h with heq | hpre
  · exact absurd (String.toList_injective (List.append_cancel_right heq)) hne
  · rwa [hasPrefix_iff, String.toList_append]

/-- Names of which neither is a directory of the other have no key in common. -/
theorem not_owns_of_separate (hns : hasPrefix ns "_" = false) (hother : hasPrefix other "_" = false) (hne : ns ≠ other)
    (h : hasPrefix other (ns ++ "/") = false) (h' : hasPrefix ns (other ++ "/") = false) {key : String}
    (hkey : Owns pre ns key) : ¬Owns pre other key := by
  intro hkey'
  rcases hkey with hkey | rfl <;> rcases hkey' with hkey' | hkey'
  · rw [hasPrefix_iff] at hkey hkey'
    have hsplit := List.prefix_or_prefix_of_prefix hkey hkey'
    simp only [buildNamespacePrefix, String.toList_append, List.append_assoc, List.prefix_append_right_inj] at hsplit
    rcases hsplit with hsplit | hsplit
    · rw [directory_of_hasPrefix hne hsplit] at h
      cases h
    · rw [directory_of_hasPrefix (Ne.symm hne) hsplit] at h'
      cases h'
  · rw [hkey', not_hasPrefix_namespace_assignmentVersionKey hns] at hkey
    cases hkey
  · rw [not_hasPrefix_namespace_assignmentVersionKey hother] at hkey'
    cases hkey'
  · have hlist := congrArg String.toList hkey'
    simp only [buildAssignmentVersionKey, String.toList_append] at hlist
    exact hne (String.toList_injective (List.append_cancel_left hlist))

variable [Float64 F] [DecidableEq F] [Encoding F]

/-- Calls in progress stay in their namespace, and so has everything written. -/
structure Cluster.Tidy (pre : String) (c : Cluster F) : Prop where
  calls : ∀ ns, ∀ call ∈ c.calls ns, CallWithin pre ns call
  written : ∀ ns key, (ns, key) ∈ c.written → Owns pre ns key

omit [Float64 F] [DecidableEq F] [Encoding F] in
theorem owns_of_mem_puts {s s' : Store (Value F)}
    (hget : ∀ key, ¬Owns pre ns key → s'.get key = s.get key) {key : String} (hkey : key ∈ Cluster.puts s s') :
    Owns pre ns key := by
  by_contra howns
  have hmoved := of_decide_eq_true (List.mem_filter.mp hkey).2
  exact hmoved (by rw [Store.modRevision, Store.modRevision, hget key howns])

theorem Cluster.Tidy.step {c c' : Cluster F} (h : c.Tidy pre) {label : String × Operation F}
    (hguard : label.2.GuardOf pre label.1) (hstep : Cluster.step pre label c = some c') : c'.Tidy pre := by
  obtain ⟨ns, op⟩ := label
  obtain ⟨⟨answer, w⟩, hperform, rfl⟩ := Option.map_eq_some_iff.mp hstep
  have hconfined := perform_confined (w := c.of ns) (h.calls ns) hguard
  refine ⟨?_, ?_⟩
  · intro ns'
    dsimp only [Cluster.after]
    by_cases hns : ns' = ns
    · subst hns
      rw [Function.update_self]
      exact hconfined.calls hperform
    · rw [Function.update_of_ne hns]
      exact h.calls ns'
  · intro ns' key hmem
    rcases List.mem_append.mp hmem with hmem | hmem
    · exact h.written ns' key hmem
    · obtain ⟨put, hput, heq⟩ := List.mem_map.mp hmem
      cases heq
      exact owns_of_mem_puts (hconfined.get hperform) hput

theorem Cluster.tidy_of_run {c : Cluster F}
    (hrun : transition.Run (Cluster.step pre) (fun _ label => label.2.GuardOf pre label.1) .initial c) : c.Tidy pre :=
  hrun.invariant (Cluster.Tidy pre) (fun _ _ _ htidy hguard hstep => htidy.step hguard hstep)
    ⟨by simp [Cluster.initial], by simp [Cluster.initial]⟩

theorem isolated_of_separate (hns : hasPrefix ns "_" = false) (hother : hasPrefix other "_" = false) (hne : ns ≠ other)
    (h : hasPrefix other (ns ++ "/") = false) (h' : hasPrefix ns (other ++ "/") = false) :
    Isolated F pre ns other := by
  intro c hrun op answer w hguard hperform hidden hhidden
  have htidy := Cluster.tidy_of_run hrun
  have hconfined := perform_confined (w := c.of ns) (htidy.calls ns) hguard
  have hforeign : ∀ key, hidden key = true → ¬Owns pre ns key := fun key hkey howns =>
    not_owns_of_separate hns hother hne h h' howns (htidy.written other key (hhidden key hkey))
  refine ⟨fun key hkey => hconfined.get hperform key (hforeign key hkey), hconfined.without hperform hidden ?_⟩
  intro key howns
  by_contra hkey
  exact hforeign key (by simpa using hkey) howns

end Isolation

section Nested

variable {pre ns other : String} [Float64 F] [DecidableEq F] [Encoding F]

/-- The call of `DrainShards` for one shard, before its only batch. -/
def drainCall (pre ns shardID : String) : CommitOps (Value F) :=
  ⟨[.put (buildDrainedShardKey pre ns shardID) (.text "")], [touchAssignmentVersion pre ns], nopGuard, 1, 0, []⟩

omit [Float64 F] [DecidableEq F] [Encoding F] in
theorem drainShards_zero (pre ns : String) :
    drainShards pre ns 128 ["0"] = .ok (.running (drainCall (F := F) pre ns "0")) := by
  have hsize : ∀ op extra : Op (Value F), batchSize 128 [op] [extra] = some 1 := by
    intro op extra
    have hlimit : maxOpsPerTxn 128 [extra] = 126 := by
      rw [maxOpsPerTxn, List.length_singleton]
      decide
    have hbatches : numBatches 128 [op] [extra] = 1 := by
      rw [numBatches, hlimit, List.length_singleton]
      decide
    rw [batchSize, hbatches, List.length_singleton]
    decide
  have hvalid : validateShardIDs ["0"] = .ok () := by decide
  rw [drainShards, hvalid]
  change Except.ok (commitAssignmentOps pre ns 128 _ nopGuard) = _
  rw [commitAssignmentOps, commitOps, if_neg (by simp), List.map_singleton, hsize]
  rfl

omit [Float64 F] [Encoding F] in
theorem drainCall_applied (pre ns shardID : String) (s : Store (Value F)) :
    Applied [.put (buildDrainedShardKey pre ns shardID) (.text ""), touchAssignmentVersion pre ns] s
      ((drainCall pre ns shardID).commitBatch .delivered s).2 := by
  have hne : buildDrainedShardKey pre ns shardID ≠ buildAssignmentVersionKey pre ns := by
    refine assignmentVersionKey_ne_of_dir "drained_shards/" (by decide) ?_
    simp [buildDrainedShardKey, buildDrainedShardsPrefix]
  have hadm : Admissible [.put (buildDrainedShardKey pre ns shardID) (.text ""),
      touchAssignmentVersion (F := F) pre ns] := by
    refine ⟨?_, by simp [deleteRanges, Op.deleteRange?, touchAssignmentVersion]⟩
    simpa [putKeys, Op.putKey?, touchAssignmentVersion] using hne
  have hstore : ((drainCall pre ns shardID).commitBatch .delivered s).2 =
      ((Txn.flat [] [.put (buildDrainedShardKey pre ns shardID) (.text ""),
        touchAssignmentVersion pre ns] []).send .delivered s).2 := by
    have hbatch : (drainCall (F := F) pre ns shardID).batch =
        some [.put (buildDrainedShardKey pre ns shardID) (.text "")] := rfl
    unfold CommitOps.commitBatch
    rw [hbatch]
    dsimp only [drainCall, nopGuard, CommitOps.batchTxn, List.singleton_append]
    split <;> rename_i hsend
    · rw [hsend]
    · rw [hsend]
      split <;> rfl
  rw [hstore]
  exact Txn.send_flat_delivered hadm (admissible_of_no_puts rfl) [] s

/-- The cluster after one shard of a namespace has been drained. -/
theorem exists_drained (pre ns : String) : ∃ c : Cluster F,
    transition.Run (Cluster.step pre) (fun _ label => label.2.GuardOf pre label.1) .initial c ∧
      (c.store.get (buildDrainedShardKey pre ns "0")).isSome = true ∧
        (ns, buildDrainedShardKey pre ns "0") ∈ c.written := by
  let call : CommitOps (Value F) := drainCall pre ns "0"
  let begun : Cluster F := Cluster.initial.after ns ⟨.empty, [call]⟩
  have hof : begun.of ns = ⟨.empty, [call]⟩ := by simp [begun, Cluster.of, Cluster.after]
  have hbegin : Cluster.step pre (ns, .write (.drainShards 128 ["0"])) .initial = some begun := by
    simp only [Cluster.step, perform, write, drainShards_zero]
    rfl
  obtain ⟨answer, w, hw, hstore⟩ : ∃ answer w, perform pre ns (.write (.commitBatch 0 .delivered)) (begun.of ns) =
      some (answer, w) ∧ w.store = (call.commitBatch .delivered .empty).2 := by
    rw [hof]
    dsimp only [perform, write, List.getElem?_cons_zero]
    split <;> rename_i hcommit
    · exact ⟨_, _, rfl, by rw [hcommit]⟩
    · exact ⟨_, _, rfl, by rw [hcommit]⟩
  have happlied := drainCall_applied pre ns "0" (.empty : Store (Value F))
  have hget := happlied.get_of_put (List.mem_cons_self ..)
  rw [← hstore] at hget
  refine ⟨begun.after ns w, ?_, by rw [Cluster.after, hget]; rfl, ?_⟩
  · refine .tail (.single ⟨(ns, .write (.drainShards 128 ["0"])), trivial, hbegin⟩)
      ⟨(ns, .write (.commitBatch 0 .delivered)), trivial, ?_⟩
    rw [Cluster.step, hw]
    rfl
  · refine List.mem_append_right _ (List.mem_map.mpr ⟨_, List.mem_filter.mpr ⟨?_, decide_eq_true ?_⟩, rfl⟩)
    · exact AList.mem_keys.mp (Map.mem_iff_exists_lookup.mpr ⟨_, hget⟩)
    · have hmissing : begun.store.modRevision (buildDrainedShardKey pre ns "0") = 0 :=
        Store.modRevision_of_get_none (Store.get_empty _)
      rw [Store.modRevision_of_get hget, hmissing]
      change (1 : Int) + 1 ≠ 0
      decide

omit [Float64 F] [Encoding F] in
theorem resetNamespace_applied (pre : String) (hns : hasPrefix ns "_" = false) (s : Store (Value F)) :
    Applied [.delete (.withPrefix (buildNamespacePrefix pre ns)), touchAssignmentVersion pre ns] s
      (resetNamespace pre ns .delivered s).2 := by
  rw [resetNamespace_store]
  have hadm : Admissible [.delete (.withPrefix (buildNamespacePrefix pre ns)),
      touchAssignmentVersion (F := F) pre ns] := by
    refine ⟨List.nodup_singleton (buildAssignmentVersionKey pre ns), ?_⟩
    intro key hkey range hrange
    rw [List.mem_singleton.mp hkey, List.mem_singleton.mp hrange]
    exact not_hasPrefix_namespace_assignmentVersionKey hns ns
  exact Txn.send_flat_delivered hadm (admissible_of_no_puts rfl) [] s

/-- Resetting a namespace deletes what is drained in one named like a path
below it. -/
theorem not_isolated_of_directory (hns : hasPrefix ns "_" = false) (h : hasPrefix other (ns ++ "/") = true) :
    ¬Isolated F pre ns other := by
  intro hisolated
  obtain ⟨c, hrun, hdrained, hwritten⟩ := exists_drained (F := F) pre other
  have hbelow : hasPrefix (buildDrainedShardKey pre other "0") (buildNamespacePrefix pre ns) = true := by
    rw [hasPrefix_iff] at h ⊢
    obtain ⟨rest, hrest⟩ := h
    refine ⟨rest ++ '/' :: ("drained_shards/0").toList, ?_⟩
    simp [buildDrainedShardKey, buildDrainedShardsPrefix, buildNamespacePrefix, ← hrest]
  have hgone := (resetNamespace_applied pre hns c.store).get_of_deleted (List.mem_cons_self ..) hbelow
  have hkept := (hisolated c hrun (.write (.resetNamespace .delivered)) _ _ trivial rfl
    (fun key => decide (key = buildDrainedShardKey pre other "0"))
    (fun key hkey => of_decide_eq_true hkey ▸ hwritten)).1 _ (decide_eq_true rfl)
  rw [← hkept] at hdrained
  rw [show (c.of ns).store = c.store from rfl, hgone] at hdrained
  cases hdrained

end Nested

/-- The namespaces of an accepted configuration are isolated from one another
exactly if no name is a path below another name. Validation does not demand
this of them. -/
theorem isolated_iff_no_path_below [Float64 F] [DecidableEq F] [Encoding F] (pre : String)
    {cfg : List config.Namespace} {r : namespaces.Registry} (h : namespaces.newRegistry cfg = .ok r) :
    (∀ ns ∈ r.byName, ∀ other ∈ r.byName, ns ≠ other → Isolated F pre ns other) ↔
      ∀ ns ∈ r.byName, ∀ other ∈ r.byName, hasPrefix other (ns ++ "/") = false := by
  constructor
  · intro hisolated ns hns other hother
    by_contra hpath
    rw [Bool.not_eq_false] at hpath
    have hne : ns ≠ other := by
      rintro rfl
      have hlength := (hasPrefix_iff.mp hpath).length_le
      simp at hlength
    exact not_isolated_of_directory (namespaces.not_underscore_of_mem h hns) hpath (hisolated ns hns other hother hne)
  · intro hpath ns hns other hother hne
    exact isolated_of_separate (namespaces.not_underscore_of_mem h hns) (namespaces.not_underscore_of_mem h hother) hne
      (hpath ns hns other hother) (hpath other hother ns hns)

/-- Two namespaces that nothing connects. -/
theorem orders_payments_isolated : ∃ r : namespaces.Registry,
    namespaces.newRegistry [⟨"orders", .fixed, 3⟩, ⟨"payments", .ephemeral, 0⟩] = .ok r ∧
      Isolated ExactFloat "/cadence" "orders" "payments" := by
  let cfg : List config.Namespace := [⟨"orders", .fixed, 3⟩, ⟨"payments", .ephemeral, 0⟩]
  have hcfg : namespaces.newRegistry cfg = .ok ⟨Map.ofList (cfg.map fun ns => (ns.name, ns))⟩ := by rfl
  refine ⟨_, hcfg, (isolated_iff_no_path_below "/cadence" hcfg).mpr ?_ "orders" (by decide) "payments" (by decide)
    (by decide)⟩
  decide

/-- A namespace `orders/eu` is accepted next to `orders`, and a reset of
`orders` deletes its drained shards. -/
theorem orders_not_isolated_from_path_below : ∃ r : namespaces.Registry,
    namespaces.newRegistry [⟨"orders", .fixed, 3⟩, ⟨"orders/eu", .fixed, 3⟩] = .ok r ∧
      "orders" ∈ r.byName ∧ "orders/eu" ∈ r.byName ∧ ¬Isolated ExactFloat "/cadence" "orders" "orders/eu" :=
  ⟨_, rfl, by decide, by decide, not_isolated_of_directory (by decide) (by decide)⟩

end executorstore
