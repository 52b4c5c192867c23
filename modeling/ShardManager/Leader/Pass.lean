import ShardManager.ExecutorStore.Operations
import ShardManager.LoadBalancer.Statistics
import ShardManager.Process.Rebalance

open golang etcd etcdkeys store plan

namespace executorstore

open etcdtypes (Value Encoding)

variable {F : Type} [Float64 F] [DecidableEq F]

/-- The updates one after another. An error is joined to the others and the
next update is sent all the same. -/
def recordShardStatisticsBatch (pre ns : String) (updates : List (ExecutorShardStatistics F))
    (fates : String → Fate) (s : Store (Value F)) : Store (Value F) :=
  updates.foldl (fun s update =>
    (recordShardStatisticsUpdate pre ns update.executorID update.statistics (fates update.executorID) s).2) s

end executorstore

namespace leader

open etcdtypes (Value Encoding)
open executorstore

variable {F : Type}

/-- What a pass does not decide itself: the visiting orders, the random start
and the clock, its guard, the size of a batch and what becomes of its requests. -/
structure Environment (F : Type) where
  readOrder : RangeOrder
  choices : process.Choices
  guard : Guarded (Value F)
  maxEtcdTxnOps : Int
  assignFate : Fate
  deleteFates : List Fate
  statisticsFates : String → Fate

/-- One pass: the store before and after it, the moves the load balancer
planned and the number of writing transactions it sent. -/
structure Pass (F : Type) where
  before : Store (Value F)
  after : Store (Value F)
  moves : List Move
  transactions : Nat
  /-- The error of `DeleteExecutors`, which the pass only logs. -/
  cleanupErr : Option CommitOpsError

variable [Float64 F]

/-- The moves a rebalance plans for the state it read. -/
def plannedMoves (choices : process.Choices) (cfg : process.Config F) (state : NamespaceState F) : List Move :=
  let staleExecutors := process.identifyStaleExecutors cfg.heartbeatTTL choices.now state
  match process.planAssignments choices cfg state staleExecutors (state.assignableExecutorIDs staleExecutors) with
  | .ok p => p.loadBalanceMoves
  | .error _ => []

/-- The statistics updates that follow a successful assignment. An error of
`PrepareAssignmentStatistics` is logged. -/
def statisticsUpdates (choices : process.Choices) (cfg : process.Config F) (state : NamespaceState F)
    (request : AssignShardsRequest F) : List (ExecutorShardStatistics F) :=
  match loadbalancer.prepareAssignmentStatistics choices.order cfg.loadBalancing.mode
      (state.shardOwners choices.order) request.newState.shardAssignments state.shardStats
      choices.assignmentTime with
  | .ok updates => updates
  | .error _ => []

variable [DecidableEq F] [Encoding F] (pre ns : String)

/-- `rebalanceShardsImpl` on the store. `none` is a pass that returns an error,
as it cannot read, plan or assign, or one that does not return. Errors of the
cleanup and of the statistics updates are logged. -/
def rebalanceShardsImpl (cfg : process.Config F) (env : Environment F) (s : Store (Value F)) :
    Option (Pass F) :=
  match getState pre ns env.readOrder s with
  | .error _ => none
  | .ok state =>
    let moves := plannedMoves env.choices cfg state
    match process.rebalanceShardsImpl env.choices cfg state with
    | .error _ => none
    | .ok .nothing => some ⟨s, s, moves, 0, none⟩
    | .ok (.deleteExecutors executorIDs) =>
      match (deleteExecutors pre ns env.maxEtcdTxnOps executorIDs env.guard).finish env.deleteFates s with
      | none | some ⟨some .panic, _, _⟩ => none
      | some ⟨err, sent, s'⟩ => some ⟨s, s', moves, sent, err⟩
    | .ok (.assignShards request) =>
      match assignShards pre ns env.choices.order request env.guard env.assignFate s with
      | (.error _, _) => none
      | (.ok (), s') =>
        let updates := statisticsUpdates env.choices cfg state request
        -- Without operations `AssignShards` returns before its transaction.
        let sent := if assignmentOps pre ns env.choices.order request = [] then 0 else 1
        some ⟨s, recordShardStatisticsBatch pre ns updates env.statisticsFates s', moves, sent + updates.length, none⟩

/-- Successful passes one after another. -/
def passes (cfg : process.Config F) : List (Environment F) → Store (Value F) → Option (List (Pass F))
  | [], _ => some []
  | env :: envs, s => do
    let pass ← rebalanceShardsImpl pre ns cfg env s
    let rest ← passes cfg envs pass.after
    return pass :: rest

end leader
