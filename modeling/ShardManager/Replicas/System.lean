import ShardManager.Abstract.Transition
import ShardManager.ExecutorStore.Operations
import ShardManager.Replicas.Plan

open golang etcd etcdkeys store executorstore

namespace replicas

open etcdtypes (Value Encoding)

variable {F : Type}

/-- A write that some replica has planned and not finished. `snapshot` is the
store its planner read, kept for reasoning only. -/
inductive Pending (F : Type) where
  | assignShards (snapshot : Store (Value F)) (state : NamespaceState F) (origin : Origin F)
      (order : RangeOrder) (request : AssignShardsRequest F) (guard : Guarded (Value F))
  | deleteExecutors (snapshot : Store (Value F)) (executorIDs : List String) (call : CommitOps (Value F))

/-- One namespace: the store and the writes in flight of all replicas. -/
structure System (F : Type) where
  store : Store (Value F)
  pending : List (Pending F)

/-- An empty store and nothing in flight. -/
def initial : System F := ⟨.empty, []⟩

inductive Label (F : Type) where
  /-- An executor joins, reports or changes its status. -/
  | heartbeat (order : RangeOrder) (executorID : String) (request : HeartbeatState F) (fate : Fate)
  /-- A leader reads the namespace and plans. -/
  | rebalance (order : RangeOrder) (choices : process.Choices) (cfg : process.Config F)
      (maxEtcdTxnOps : Int) (guard : Guarded (Value F))
  /-- An assigner reads the namespace and plans. -/
  | assign (order : RangeOrder) (cfg : loadbalancer.Config F) (now : Time) (shardKeys : List String)
  /-- The next transaction of a write in flight. -/
  | send (i : Nat) (fate : Fate)
  /-- A write in flight is given up. -/
  | abandon (i : Nat)
  /-- A transaction about anything but assignment records: an election, a
  drain, statistics. -/
  | other (cmps : List (Cmp (Value F))) (ops : List (Op (Value F))) (fate : Fate)

section Step

variable (pre ns : String)

/-- The key is some executor's assignment record. -/
def isRecordKey (key : String) : Bool :=
  match parseExecutorKey pre ns key with
  | .ok (_, .assignedState) => true
  | _ => false

/-- The operation neither writes nor deletes an assignment record. -/
def sparesRecords : Op (Value F) → Bool
  | .put key (.text _) => !isRecordKey pre ns key
  | .put key (.statistics _) => !isRecordKey pre ns key
  | .put key (.drainedHost _) => !isRecordKey pre ns key
  | .put _ _ => false
  | .delete (.key key) => !isRecordKey pre ns key
  | .delete (.withPrefix _) => false
  | .get _ => true

variable [Float64 F] [DecidableEq F] [Encoding F]

/-- What `rebalanceShardsImpl` leaves in flight for the state it read. -/
def rebalanced (snapshot : Store (Value F)) (choices : process.Choices) (cfg : process.Config F)
    (maxEtcdTxnOps : Int) (guard : Guarded (Value F)) (state : NamespaceState F) : List (Pending F) :=
  match process.rebalanceShardsImpl choices cfg state with
  | .ok (.assignShards request) =>
    [.assignShards snapshot state (.leader cfg choices.now) choices.order request guard]
  | .ok (.deleteExecutors executorIDs) =>
    match deleteExecutors pre ns maxEtcdTxnOps executorIDs guard with
    | .running call => [.deleteExecutors snapshot executorIDs call]
    | .returned _ => []
  | .ok .nothing => []
  | .error _ => []

/-- What `tryAssignEphemeralBatch` leaves in flight for the state it read. -/
def assigned (snapshot : Store (Value F)) (order : RangeOrder) (cfg : loadbalancer.Config F) (now : Time)
    (shardKeys : List String) (state : NamespaceState F) : List (Pending F) :=
  match ephemeralassigner.planBatch order cfg now state shardKeys with
  | .ok (some batch) => [.assignShards snapshot state (.assigner shardKeys) order batch.request nopGuard]
  | .ok none => []
  | .error _ => []

/-- Sends the next transaction of a write, which then is finished or goes on. -/
def Pending.send (fate : Fate) (p : Pending F) (s : Store (Value F)) : List (Pending F) × Store (Value F) :=
  match p with
  | .assignShards _ _ _ order request guard => ([], (executorstore.assignShards pre ns order request guard fate s).2)
  | .deleteExecutors snapshot executorIDs call =>
    match call.commitBatch fate s with
    | (.running call, s) => ([.deleteExecutors snapshot executorIDs call], s)
    | (.returned _, s) => ([], s)

def step : Label F → System F → Option (System F)
  | .heartbeat order executorID request fate, sys =>
    some { sys with store := (recordHeartbeat pre ns order executorID request fate sys.store).2 }
  | .rebalance order choices cfg maxEtcdTxnOps guard, sys =>
    match getState pre ns order sys.store with
    | .error _ => none
    | .ok state => some { sys with
        pending := sys.pending ++ rebalanced pre ns sys.store choices cfg maxEtcdTxnOps guard state }
  | .assign order cfg now shardKeys, sys =>
    match getState pre ns order sys.store with
    | .error _ => none
    | .ok state => some { sys with
        pending := sys.pending ++ assigned sys.store order cfg now shardKeys state }
  | .send i fate, sys =>
    match sys.pending[i]? with
    | none => none
    | some p => some {
        store := (p.send pre ns fate sys.store).2
        pending := sys.pending.eraseIdx i ++ (p.send pre ns fate sys.store).1 }
  | .abandon i, sys => some { sys with pending := sys.pending.eraseIdx i }
  | .other cmps ops fate, sys =>
    if ops.all (sparesRecords pre ns) then
      some { sys with store := ((Txn.flat cmps ops []).send fate sys.store).2 }
    else none

end Step

end replicas
