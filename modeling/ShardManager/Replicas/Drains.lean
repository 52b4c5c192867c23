import ShardManager.Replicas.Effect

open golang etcd etcdkeys store executorstore

namespace drains

open etcdtypes (Value Encoding)
open replicas (Pending)

variable {F : Type}

/-- A `DrainShards` between two of its transactions. `undone` is kept for
reasoning only: the shards an undrain or a reset has taken the mark from since
the call began. -/
structure Drain (F : Type) where
  shardIDs : List String
  call : CommitOps (Value F)
  undone : List String

/-- The planners of a namespace and the operators that drain its shards.
`drained` is kept for reasoning only: the shards whose `DrainShards` has
returned without error, until they are undrained or the namespace is reset. -/
structure System (F : Type) where
  planners : replicas.System F
  draining : List (Drain F)
  undraining : List (CommitOps (Value F))
  drained : List String

abbrev System.store (sys : System F) : Store (Value F) := sys.planners.store

def initial : System F := ⟨replicas.initial, [], [], []⟩

inductive Label (F : Type) where
  /-- A step of a leader, an assigner or an executor. -/
  | planners (label : replicas.Label F)
  | drainShards (maxEtcdTxnOps : Int) (shardIDs : List String)
  /-- The next transaction of a drain. -/
  | commitDrain (i : Nat) (fate : Fate)
  | undrainShards (maxEtcdTxnOps : Int) (shardIDs : List String)
  /-- The next transaction of an undrain. -/
  | commitUndrain (i : Nat) (fate : Fate)
  | resetNamespace (fate : Fate)

section Step

variable (pre ns : String)

def isMarked (s : Store (Value F)) (shardID : String) : Bool :=
  (s.get (buildDrainedShardKey pre ns shardID)).isSome

/-- The operation touches no drained shard. -/
def sparesMark : Op (Value F) → Bool
  | .put key _ => !hasPrefix key (buildDrainedShardsPrefix pre ns)
  | .delete (.key key) => !hasPrefix key (buildDrainedShardsPrefix pre ns)
  | .delete (.withPrefix _) => false
  | .get _ => true

/-- Drains and undrains have labels of their own. -/
def sparesMarks : replicas.Label F → Bool
  | .other _ ops _ => ops.all (sparesMark pre ns)
  | _ => true

/-- Notes the marks that are gone. -/
def Drain.unmark (s s' : Store (Value F)) (drain : Drain F) : Drain F where
  shardIDs := drain.shardIDs
  call := drain.call
  undone := drain.undone ++ drain.shardIDs.filter fun shardID =>
    isMarked pre ns s shardID && !isMarked pre ns s' shardID

namespace System

variable (sys : System F)

def write (s : Store (Value F)) : System F := { sys with planners := { sys.planners with store := s } }

/-- The system after a transaction that takes marks away. -/
def unmark (s : Store (Value F)) : System F :=
  { sys.write s with
    draining := sys.draining.map (Drain.unmark pre ns sys.store s)
    drained := sys.drained.filter (isMarked pre ns s) }

end System

/-- The shards a drain that returns without error has drained: all it was
called with, but for those undrained again while it was running. -/
def Drain.drained (drain : Drain F) (s : Store (Value F)) : List String :=
  drain.shardIDs.filter fun shardID => !decide (shardID ∈ drain.undone) || isMarked pre ns s shardID

variable [Float64 F] [DecidableEq F] [Encoding F]

def step : Label F → System F → Option (System F)
  | .planners label, sys =>
    if sparesMarks pre ns label then
      (replicas.step pre ns label sys.planners).map fun planners => { sys with planners }
    else none
  | .drainShards maxEtcdTxnOps shardIDs, sys =>
    match executorstore.drainShards pre ns maxEtcdTxnOps shardIDs with
    | .ok (.running call) => some { sys with draining := sys.draining ++ [⟨shardIDs, call, []⟩] }
    | .ok (.returned (.ok _)) => some { sys with drained := sys.drained ++ shardIDs }
    | _ => some sys
  | .commitDrain i fate, sys =>
    match sys.draining[i]? with
    | none => none
    | some drain =>
      match drain.call.commitBatch fate sys.store with
      | (.running call, s) => some { sys.write s with draining := sys.draining.set i { drain with call } }
      | (.returned (.ok _), s) => some { sys.write s with
          draining := sys.draining.eraseIdx i
          drained := sys.drained ++ drain.drained pre ns s }
      | (.returned (.error _), s) => some { sys.write s with draining := sys.draining.eraseIdx i }
  | .undrainShards maxEtcdTxnOps shardIDs, sys =>
    match executorstore.undrainShards pre ns maxEtcdTxnOps shardIDs with
    | .ok (.running call) => some { sys with undraining := sys.undraining ++ [call] }
    | _ => some sys
  | .commitUndrain i fate, sys =>
    match sys.undraining[i]? with
    | none => none
    | some call =>
      match call.commitBatch fate sys.store with
      | (.running call, s) => some { sys.unmark pre ns s with undraining := sys.undraining.set i call }
      | (.returned _, s) => some { sys.unmark pre ns s with undraining := sys.undraining.eraseIdx i }
  | .resetNamespace fate, sys => some (sys.unmark pre ns (executorstore.resetNamespace pre ns fate sys.store).2)

end Step

variable {pre ns : String} {s s' : Store (Value F)}

section Marks

theorem drainedAt_iff {shardID : String} :
    DrainedAt pre ns s shardID ↔ validateShardID shardID = .ok () ∧ isMarked pre ns s shardID = true := by
  rw [DrainedAt, isMarked, Option.isSome_iff_exists]

theorem hasPrefix_drainedShardKey (shardID : String) :
    hasPrefix (buildDrainedShardKey pre ns shardID) (buildDrainedShardsPrefix pre ns) = true :=
  hasPrefix_append _ _

theorem drainedShardKey_ne_version (shardID : String) :
    buildDrainedShardKey pre ns shardID ≠ buildAssignmentVersionKey pre ns :=
  assignmentVersionKey_ne_of_dir "drained_shards/" (by decide) (hasPrefix_drainedShardKey shardID)

/-- A drained shard is no key of an executor. -/
theorem not_hasPrefix_executors (shardID : String) :
    hasPrefix (buildDrainedShardKey pre ns shardID) (buildExecutorsPrefix pre ns) = false := by
  have hkey : hasPrefix (buildDrainedShardKey pre ns shardID) (buildNamespacePrefix pre ns ++ "drained_shards/") =
      true := hasPrefix_drainedShardKey shardID
  exact not_hasPrefix_of_dir (by decide) (by decide) hkey

theorem ne_drainedShardKey {shardID key : String} (h : hasPrefix key (buildExecutorsPrefix pre ns) = true) :
    buildDrainedShardKey pre ns shardID ≠ key := by
  rintro rfl
  rw [not_hasPrefix_executors] at h
  cases h

theorem not_hasPrefix_executorID (executorID shardID : String) :
    hasPrefix (buildDrainedShardKey pre ns shardID) (buildExecutorIDPrefix pre ns executorID) = false := by
  rw [← Bool.not_eq_true]
  intro h
  have hdir : hasPrefix (buildDrainedShardKey pre ns shardID) (buildExecutorsPrefix pre ns) = true := by
    rw [hasPrefix_iff, buildExecutorIDPrefix, String.toList_append, String.toList_append] at h
    rw [hasPrefix_iff]
    exact ((List.prefix_append _ _).trans (List.prefix_append _ _)).trans h
  rw [not_hasPrefix_executors] at hdir
  cases hdir

variable [DecidableEq F]

/-- Operations on other keys leave the marks alone. -/
theorem isMarked_of_applied {ops : List (Op (Value F))} (h : Applied ops s s') {shardID : String}
    (hputs : ∀ value, Op.put (buildDrainedShardKey pre ns shardID) value ∉ ops)
    (hdeletes : ∀ range, Op.delete range ∈ ops → range.contains (buildDrainedShardKey pre ns shardID) = false) :
    isMarked pre ns s' shardID = isMarked pre ns s shardID := by
  rw [isMarked, isMarked, h.get_of_spared hputs hdeletes]

/-- Operations that delete nothing take no mark away. -/
theorem isMarked_mono_of_applied {ops : List (Op (Value F))} (h : Applied ops s s')
    (hdeletes : ∀ range, Op.delete range ∉ ops) {shardID : String} (hmarked : isMarked pre ns s shardID = true) :
    isMarked pre ns s' shardID = true := by
  by_cases hput : ∃ value, Op.put (buildDrainedShardKey pre ns shardID) value ∈ ops
  · obtain ⟨value, hput⟩ := hput
    rw [isMarked, h.get_of_put hput]
    rfl
  · rw [isMarked_of_applied h (not_exists.mp hput) fun range hdelete => absurd hdelete (hdeletes range)]
    exact hmarked

/-- Heartbeats leave the marks alone. -/
theorem isMarked_recordHeartbeat [Float64 F] (order : RangeOrder) (executorID : String)
    (request : HeartbeatState F) (fate : Fate) (s : Store (Value F)) (shardID : String) :
    isMarked pre ns (recordHeartbeat pre ns order executorID request fate s).2 shardID =
      isMarked pre ns s shardID := by
  rcases hcall : recordHeartbeat pre ns order executorID request fate s with ⟨result, s'⟩
  rcases recordHeartbeat_cases hcall with ⟨rfl, -⟩ | ⟨reportedShards, -, happlied⟩
  · rfl
  rw [isMarked, isMarked, get_of_heartbeat happlied (drainedShardKey_ne_version shardID)]
  intro value hput
  rcases put_mem_heartbeatOps hput with
    ⟨name, text, -, hkey, -⟩ | ⟨hkey, -⟩ | ⟨hkey, -⟩ | ⟨hkey, -⟩ | ⟨host, hkey, -⟩
  · refine ne_drainedShardKey ?_ hkey
    rw [hasPrefix_iff, toList_buildMetadataKey]
    exact List.prefix_append _ _
  all_goals exact ne_drainedShardKey (hasPrefix_executorsPrefix_key _ _) hkey

omit [DecidableEq F] in
/-- Assignments leave the marks alone. -/
theorem isMarked_assigned {request : AssignShardsRequest F} (h : Assigned pre ns request s s')
    (shardID : String) : isMarked pre ns s' shardID = isMarked pre ns s shardID := by
  rw [isMarked, isMarked, h.unchanged]
  · exact fun executorID _ => not_hasPrefix_executorID executorID shardID
  · intro executorID _ _
    refine ne_drainedShardKey ?_
    exact hasPrefix_executorsPrefix_key _ _
  · exact drainedShardKey_ne_version shardID

/-- So do deletions of executors. -/
theorem isMarked_deleteBatch {call : CommitOps (Value F)} {executorIDs : List String}
    (hops : ∀ op ∈ call.ops, ∃ executorID ∈ executorIDs, op = deletion pre ns executorID)
    (hextra : call.extraOps = [touchAssignmentVersion pre ns]) {fate : Fate} {progress : Progress (Value F)}
    (h : call.commitBatch fate s = (progress, s')) (shardID : String) :
    isMarked pre ns s' shardID = isMarked pre ns s shardID := by
  rcases CommitOps.commitBatch_cases h with ⟨rfl, -⟩ | ⟨cmps, batch, -, hbatch, -, happlied, -⟩
  · rfl
  rw [hextra] at happlied
  rw [isMarked, isMarked, get_of_deletions (fun op hop => hops op (CommitOps.mem_of_mem_batch hbatch hop)) happlied
    (drainedShardKey_ne_version shardID) fun executorID _ _ => not_hasPrefix_executorID executorID shardID]

theorem isMarked_other {cmps : List (Cmp (Value F))} {ops : List (Op (Value F))}
    (hops : ops.all (sparesMark pre ns) = true) (fate : Fate) (s : Store (Value F)) (shardID : String) :
    isMarked pre ns ((Txn.flat cmps ops []).send fate s).2 shardID = isMarked pre ns s shardID := by
  rw [List.all_eq_true] at hops
  rcases Txn.send_flat_store cmps ops [] fate s with hsame | happlied
  · rw [hsame]
  have hspared : ∀ {op : Op (Value F)}, op ∈ (if cmpsHold s cmps then ops else []) →
      sparesMark pre ns op = true := by
    intro op hop
    split at hop
    · exact hops op hop
    · cases hop
  refine isMarked_of_applied happlied ?_ ?_
  · intro value hput
    have hspare := hspared hput
    simp [sparesMark, hasPrefix_drainedShardKey] at hspare
  · intro range hdelete
    have hspare := hspared hdelete
    cases range with
    | key key =>
      rw [Range.contains, decide_eq_false_iff_not]
      rintro rfl
      simp [sparesMark, hasPrefix_drainedShardKey] at hspare
    | withPrefix pre' => cases hspare

/-- Planners and executors leave the marks alone. -/
theorem isMarked_step [Float64 F] [Encoding F] {sys sys' : replicas.System F} {label : replicas.Label F}
    (hsound : replicas.Sound pre ns sys) (hspares : sparesMarks pre ns label = true)
    (h : replicas.step pre ns label sys = some sys') (shardID : String) :
    isMarked pre ns sys'.store shardID = isMarked pre ns sys.store shardID := by
  cases label with
  | heartbeat order executorID request fate =>
    cases h
    exact isMarked_recordHeartbeat order executorID request fate sys.store shardID
  | rebalance order choices cfg maxEtcdTxnOps guard =>
    dsimp only [replicas.step] at h
    split at h
    · cases h
    · cases h
      rfl
  | assign order cfg now shardKeys =>
    dsimp only [replicas.step] at h
    split at h
    · cases h
    · cases h
      rfl
  | send i fate =>
    dsimp only [replicas.step] at h
    split at h
    · cases h
    · rename_i p hsent
      cases h
      cases p with
      | assignShards snapshot state origin order request guard =>
        dsimp only [Pending.send]
        rcases hcall : assignShards pre ns order request guard fate sys.store with ⟨result, s'⟩
        rcases assignShards_cases hcall with ⟨-, -, rfl⟩ | ⟨-, e, -, rfl | ⟨-, hassigned, -⟩⟩ | ⟨-, -, hassigned, -⟩
        · rfl
        · rfl
        · exact isMarked_assigned hassigned shardID
        · exact isMarked_assigned hassigned shardID
      | deleteExecutors snapshot executorIDs call =>
        obtain ⟨-, -, hops, hextra⟩ := hsound.planned _ (List.mem_of_getElem? hsent)
        dsimp only [Pending.send]
        rcases hcall : call.commitBatch fate sys.store with ⟨progress, s'⟩
        have hmarked := isMarked_deleteBatch hops hextra hcall shardID
        cases progress with
        | running call' => exact hmarked
        | returned result => exact hmarked
  | abandon i =>
    cases h
    rfl
  | other cmps ops fate =>
    dsimp only [replicas.step] at h
    split at h
    · cases h
      exact isMarked_other hspares fate sys.store shardID
    · cases h

end Marks

end drains
