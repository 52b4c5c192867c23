import ShardManager.Abstract.Transition
import ShardManager.ExecutorStore.WriteOps
import ShardManager.Handler.Heartbeat
import ShardManager.Leader.Pass

open golang etcd etcdkeys store types executorstore

namespace shardstats

open etcdtypes (Value Encoding)
open handler (readExecutorState storeHeartbeat)

variable {F : Type}

/-- A heartbeat between its read and its last write. Snapshots are kept for
reasoning only. -/
structure Heartbeat (F : Type) where
  snapshot : Store (Value F)
  request : ExecutorHeartbeatRequest F
  heartbeatTime : Time
  executorState : ExecutorState F
  stored : Bool

/-- A rebalance that assigns shards. Once its assignment is committed it sends
its statistics updates one after another. -/
structure Rebalance (F : Type) where
  snapshot : Store (Value F)
  state : NamespaceState F
  choices : process.Choices
  cfg : process.Config F
  request : AssignShardsRequest F
  guard : Guarded (Value F)
  updates : Option (List (ExecutorShardStatistics F))

/-- A cleanup that has read the statistics and commits what remains of them. -/
structure Cleanup (F : Type) where
  snapshot : Store (Value F)
  shardIDs : List String
  call : CommitOps (Value F)

/-- An entry a heartbeat has committed, kept for reasoning only. -/
structure Recorded where
  executorID : String
  shardID : String
  lastUpdateTime : Time
deriving DecidableEq

/-- One namespace: the store with the batched calls of all other operations,
the three kinds of writers of statistics in progress, and the entries that
heartbeats have committed for shards that stayed where they are since and were
not cleaned up. -/
structure System (F : Type) where
  writers : Writers F
  heartbeats : List (Heartbeat F)
  rebalances : List (Rebalance F)
  cleanups : List (Cleanup F)
  recorded : List Recorded

def System.store (sys : System F) : Store (Value F) := sys.writers.store

/-- Any store, and nothing in progress. -/
def start (s : Store (Value F)) : System F := ⟨⟨s, []⟩, [], [], [], []⟩

inductive Label (F : Type) where
  /-- A heartbeat arrives and reads the state of its executor. -/
  | heartbeat (registry : namespaces.Registry) (request : ExecutorHeartbeatRequest F) (heartbeatTime : Time)
  | storeHeartbeat (i : Nat) (order : RangeOrder) (fate : Fate)
  | recordShardStatistics (i : Nat) (cfg : handler.Config) (order : RangeOrder) (fate : Fate)
  /-- A leader reads the namespace and plans. -/
  | rebalance (readOrder : RangeOrder) (choices : process.Choices) (cfg : process.Config F)
      (guard : Guarded (Value F))
  | assignShards (i : Nat) (fate : Fate)
  /-- The next update of `RecordShardStatisticsBatch`. -/
  | recordShardStatisticsUpdate (i : Nat) (fate : Fate)
  /-- `DeleteShardStats` is called and reads the statistics. -/
  | deleteShardStats (order : RangeOrder) (maxEtcdTxnOps : Int) (shardIDs : List String) (guard : Guarded (Value F))
  | cleanupBatch (i : Nat) (fate : Fate)
  /-- A cleanup stops before its next batch. -/
  | abandonCleanup (i : Nat)
  /-- Any other operation on the namespace. -/
  | write (label : Write F)

section Step

variable (pre ns : String)

def recordOf (s : Store (Value F)) (executorID : String) : AssignedState :=
  (assignedStateAt pre ns s executorID).getD default

/-- The shard of the entry is assigned to the executor. -/
def Recorded.assigned (s : Store (Value F)) (entry : Recorded) : Bool :=
  decide (entry.shardID ∈ (recordOf pre ns s entry.executorID).assignedShards)

/-- The system once the store is another one. -/
def System.after (sys : System F) (s : Store (Value F)) : System F :=
  { sys with
    writers := { sys.writers with store := s }
    recorded := sys.recorded.filter (Recorded.assigned pre ns s) }

/-- The entries of an executor, apart from shards that are being cleaned up. -/
def committed (sys : System F) (s : Store (Value F)) (executorID : String) : List Recorded :=
  ((statisticsAt pre ns s executorID).toList.map fun (shardID, statistic) =>
    ⟨executorID, shardID, statistic.lastUpdateTime⟩).filter fun entry =>
      entry.assigned pre ns s && sys.cleanups.all fun cleanup => decide (entry.shardID ∉ cleanup.shardIDs)

variable [Float64 F] [ExpFloat64 F] [DecidableEq F] [Encoding F]

def step : Label F → System F → Option (System F)
  | .heartbeat registry request heartbeatTime, sys =>
    if request.ns = ns then
      match readExecutorState pre registry request sys.store with
      | .error _ => some sys
      | .ok executorState =>
        some { sys with heartbeats := sys.heartbeats ++ [⟨sys.store, request, heartbeatTime, executorState, false⟩] }
    else none
  | .storeHeartbeat i order fate, sys =>
    match sys.heartbeats[i]? with
    | none => none
    | some call =>
      if call.stored then none
      else match storeHeartbeat pre order call.request call.heartbeatTime call.executorState fate sys.store with
        | (.error _, s) => some { sys.after pre ns s with heartbeats := sys.heartbeats.eraseIdx i }
        | (.ok (), s) =>
          some { sys.after pre ns s with heartbeats := sys.heartbeats.set i { call with stored := true } }
  | .recordShardStatistics i cfg order fate, sys =>
    match sys.heartbeats[i]? with
    | none => none
    | some call =>
      if call.stored then
        let s := handler.recordShardStatistics pre cfg order call.request call.executorState.assignment
          call.executorState.statistics call.heartbeatTime fate sys.store
        let sys' := { sys.after pre ns s with heartbeats := sys.heartbeats.eraseIdx i }
        if s.revision = sys.store.revision then some sys'
        else some { sys' with recorded := sys'.recorded ++ committed pre ns sys s call.request.executorID }
      else none
  | .rebalance readOrder choices cfg guard, sys =>
    match getState pre ns readOrder sys.store with
    | .error _ => some sys
    | .ok state =>
      match process.rebalanceShardsImpl choices cfg state with
      | .ok (.assignShards request) =>
        some { sys with rebalances := sys.rebalances ++ [⟨sys.store, state, choices, cfg, request, guard, none⟩] }
      | _ => some sys
  | .assignShards i fate, sys =>
    match sys.rebalances[i]? with
    | none => none
    | some call =>
      if call.updates.isSome then none
      else match assignShards pre ns call.choices.order call.request call.guard fate sys.store with
        | (.error _, s) => some { sys.after pre ns s with rebalances := sys.rebalances.eraseIdx i }
        | (.ok (), s) => some { sys.after pre ns s with
            rebalances := sys.rebalances.set i { call with
              updates := some (leader.statisticsUpdates call.choices call.cfg call.state call.request) } }
  | .recordShardStatisticsUpdate i fate, sys =>
    match sys.rebalances[i]? with
    | none => none
    | some call =>
      match call.updates with
      | some (update :: updates) =>
        some { sys.after pre ns (recordShardStatisticsUpdate pre ns update.executorID update.statistics fate
            sys.store).2 with
          rebalances := sys.rebalances.set i { call with updates := some updates } }
      | _ => none
  | .deleteShardStats order maxEtcdTxnOps shardIDs guard, sys =>
    let sys' := { sys with recorded := sys.recorded.filter fun entry => decide (entry.shardID ∉ shardIDs) }
    match deleteShardStats pre ns order maxEtcdTxnOps shardIDs guard sys.store with
    | .ok (.running call) => some { sys' with cleanups := sys.cleanups ++ [⟨sys.store, shardIDs, call⟩] }
    | _ => some sys'
  | .cleanupBatch i fate, sys =>
    match sys.cleanups[i]? with
    | none => none
    | some cleanup =>
      match cleanup.call.commitBatch fate sys.store with
      | (.running call, s) => some { sys.after pre ns s with cleanups := sys.cleanups.set i { cleanup with call } }
      | (.returned _, s) => some { sys.after pre ns s with cleanups := sys.cleanups.eraseIdx i }
  | .abandonCleanup i, sys => some { sys with cleanups := sys.cleanups.eraseIdx i }
  | .write label, sys =>
    if label.isHeartbeat || label.recordsStatistics then none
    else (write pre ns label sys.writers).map fun w => { sys.after pre ns w.store with writers := w }

end Step

section Conditions

variable (pre ns : String)

/-- The statistics of an executor have not been written since a snapshot. -/
def Unwritten (snapshot s : Store (Value F)) (executorID : String) : Prop :=
  s.get (statisticsKey pre ns executorID) = snapshot.get (statisticsKey pre ns executorID)

/-- Every writer of statistics finds them as it has read them; a heartbeat
knows of no measurement after its own clock reading; and the statistics a leader
carries over for an executor are those of that executor. -/
def Undisturbed (sys : System F) : Label F → Prop
  | .recordShardStatistics i _ _ _ => ∀ call ∈ sys.heartbeats[i]?,
    Unwritten pre ns call.snapshot sys.store call.request.executorID ∧
      ∀ entry ∈ call.executorState.statistics.toList, entry.2.lastUpdateTime ≤ call.heartbeatTime
  | .recordShardStatisticsUpdate i _ => ∀ call ∈ sys.rebalances[i]?, ∀ update ∈ (call.updates.getD []).head?,
    Unwritten pre ns call.snapshot sys.store update.executorID ∧
      ∀ entry ∈ (statisticsAt pre ns call.snapshot update.executorID).toList,
        call.state.shardStats.lookup entry.1 = some entry.2
  | .cleanupBatch i _ => ∀ cleanup ∈ sys.cleanups[i]?, ∀ op ∈ cleanup.call.batch.getD [],
    ∀ key ∈ op.key?, sys.store.get key = cleanup.snapshot.get key
  | _ => True

instance [DecidableEq F] (sys : System F) (label : Label F) : Decidable (Undisturbed pre ns sys label) :=
  match label with
  | .recordShardStatistics i _ _ _ => inferInstanceAs (Decidable (∀ call ∈ sys.heartbeats[i]?,
      sys.store.get (statisticsKey pre ns call.request.executorID) =
          call.snapshot.get (statisticsKey pre ns call.request.executorID) ∧
        ∀ entry ∈ call.executorState.statistics.toList, entry.2.lastUpdateTime ≤ call.heartbeatTime))
  | .recordShardStatisticsUpdate i _ => inferInstanceAs (Decidable (∀ call ∈ sys.rebalances[i]?,
      ∀ update ∈ (call.updates.getD []).head?,
        sys.store.get (statisticsKey pre ns update.executorID) =
            call.snapshot.get (statisticsKey pre ns update.executorID) ∧
          ∀ entry ∈ (statisticsAt pre ns call.snapshot update.executorID).toList,
            call.state.shardStats.lookup entry.1 = some entry.2))
  | .cleanupBatch i _ => inferInstanceAs (Decidable (∀ cleanup ∈ sys.cleanups[i]?,
      ∀ op ∈ cleanup.call.batch.getD [], ∀ key ∈ op.key?, sys.store.get key = cleanup.snapshot.get key))
  | .heartbeat .. | .storeHeartbeat .. | .rebalance .. | .assignShards .. | .deleteShardStats ..
  | .abandonCleanup .. | .write .. => .isTrue trivial

/-- The entry is stored, at least as new as it was committed. -/
def Recorded.Holds (s : Store (Value F)) (entry : Recorded) : Prop :=
  ∃ statistic, (statisticsAt pre ns s entry.executorID).lookup entry.shardID = some statistic ∧
    entry.lastUpdateTime ≤ statistic.lastUpdateTime

/-- No entry that a heartbeat has committed is lost. -/
def Kept (sys : System F) : Prop :=
  ∀ entry ∈ sys.recorded, entry.Holds pre ns sys.store

end Conditions

end shardstats
