import ShardManager.Abstract.Transition
import ShardManager.ExecutorStore.Operations

open golang etcd etcdkeys store executorstore

namespace leaderstore

open etcdtypes (Value Encoding)

variable {F : Type}

/-- The directory of a namespace's election. Both stores use the same prefix. -/
def electionKey (pre ns : String) : String := pre ++ "/" ++ ns ++ "/leader"

/-- The key of a candidacy, named after the lease of its session. -/
def candidateKey (pre ns lease : String) : String := electionKey pre ns ++ "/" ++ lease

/-- A candidacy: the key its `Campaign` created and the revision of doing so. -/
structure Election where
  key : String
  rev : Int
deriving DecidableEq, Repr

namespace Election

/-- The leadership condition of a transaction. After `Resign` the election has
no key to compare any more and the server refuses the transaction. -/
def guard (e : Election) : Guarded (Value F) := .txn [.modRevision e.key e.rev]

/-- The candidate's key is the one it created. -/
def Holds (e : Election) (s : Store (Value F)) : Prop := s.modRevision e.key = e.rev

end Election

/-- An `AssignShards` of a leader that has not been committed. -/
structure Assignment (F : Type) where
  leader : Election
  order : RangeOrder
  request : AssignShardsRequest F

/-- A `DeleteExecutors` or `DeleteShardStats` of a leader: the call before its
first batch and where it has got to. -/
structure Delete (F : Type) where
  leader : Election
  first : CommitOps (Value F)
  progress : Progress (Value F)

/-- A guarded transaction that took effect. A batch names its call. -/
inductive Written (F : Type) where
  | assignShards (leader : Election)
  | batch (leader : Election) (call : Nat) (ops : List (Op (Value F)))

def Written.leader : Written F → Election
  | .assignShards leader => leader
  | .batch leader _ _ => leader

/-- One namespace: its store, everyone who ever campaigned, those whose
`Campaign` has returned, and what they have in flight. `history` is kept for
reasoning only. -/
structure System (F : Type) where
  store : Store (Value F)
  elections : List Election
  elected : List Election
  assignments : List (Assignment F)
  deletes : List (Delete F)
  history : List (Written F)

/-- An empty store without candidates. -/
def initial : System F := ⟨.empty, [], [], [], [], []⟩

inductive Label (F : Type) where
  /-- The transaction of `Campaign` that enters the election. -/
  | campaign (lease host : String) (fate : Fate)
  /-- `Campaign` returns. -/
  | elected (e : Election)
  | resign (e : Election) (fate : Fate)
  /-- The session ends, by `Cleanup` or because its lease ran out. -/
  | expire (e : Election)
  | resetNamespace (fate : Fate)
  /-- The leader calls `AssignShards`. -/
  | assignShards (leader : Election) (order : RangeOrder) (request : AssignShardsRequest F)
  | deleteExecutors (leader : Election) (maxEtcdTxnOps : Int) (executorIDs : List String)
  | deleteShardStats (leader : Election) (order : RangeOrder) (maxEtcdTxnOps : Int) (shardIDs : List String)
  /-- A transaction in flight reaches etcd, whether or not its sender still
  leads. One that is never sent is given up. -/
  | sendAssignment (i : Nat) (fate : Fate)
  | sendBatch (i : Nat) (fate : Fate)
  /-- Any transaction of anyone else. -/
  | other (txn : Txn (Value F)) (fate : Fate)

section Step

variable (pre ns : String) [Float64 F] [DecidableEq F] [Encoding F]

/-- Enters the election unless the key exists. -/
def campaignTxn (lease host : String) : Txn (Value F) :=
  .flat [.modRevision (candidateKey pre ns lease) 0] [.put (candidateKey pre ns lease) (.text host)] []

def campaign (lease host : String) (fate : Fate) (sys : System F) : System F :=
  match (campaignTxn pre ns lease host).send fate sys.store with
  | (.ok response, s) =>
    if response.succeeded then
      { sys with store := s, elections := ⟨candidateKey pre ns lease, s.revision⟩ :: sys.elections }
    else { sys with store := s }
  | (.error _, s) => { sys with store := s }

/-- `Campaign` waits until no earlier key is left in the election. -/
def isFirst (e : Election) (s : Store (Value F)) : Bool :=
  (s.range (.withPrefix (electionKey pre ns ++ "/"))).all fun (_, kv) => decide (e.rev ≤ kv.modRevision)

/-- A delete that has operations to commit is in flight. -/
def beginDelete (leader : Election) (progress : Progress (Value F)) (sys : System F) : System F :=
  match progress with
  | .running call => { sys with deletes := sys.deletes ++ [⟨leader, call, .running call⟩] }
  | .returned _ => sys

/-- The batch took effect: it was reported to, or it moved the revision. -/
def tookEffect (progress : Progress (Value F)) (s s' : Store (Value F)) : Bool :=
  match progress with
  | .returned (.error _) => decide (s'.revision ≠ s.revision)
  | _ => true

def sendAssignment (a : Assignment F) (i : Nat) (fate : Fate) (sys : System F) : System F :=
  let s := (executorstore.assignShards pre ns a.order a.request a.leader.guard fate sys.store).2
  { sys with
    store := s
    assignments := sys.assignments.eraseIdx i
    history := sys.history ++ if s.revision = sys.store.revision then [] else [.assignShards a.leader] }

def sendBatch (d : Delete F) (call : CommitOps (Value F)) (i : Nat) (fate : Fate) (sys : System F) : System F :=
  let (progress, s) := call.commitBatch fate sys.store
  { sys with
    store := s
    deletes := sys.deletes.set i { d with progress }
    history := sys.history ++
      if tookEffect progress sys.store s then call.batch.toList.map (.batch d.leader i) else [] }

def step : Label F → System F → Option (System F)
  | .campaign lease host fate, sys => some (campaign pre ns lease host fate sys)
  | .elected e, sys =>
    if e ∈ sys.elections ∧ isFirst pre ns e sys.store then some { sys with elected := e :: sys.elected } else none
  | .resign e fate, sys =>
    if e ∈ sys.elections then some { sys with
      store := ((Txn.flat [.modRevision e.key e.rev] [.delete (.key e.key)] []).send fate sys.store).2 }
    else none
  | .expire e, sys =>
    if e ∈ sys.elections then some { sys with
      store := ((Txn.flat [] [.delete (.key e.key)] []).send .delivered sys.store).2 }
    else none
  | .resetNamespace fate, sys => some { sys with
      store := (executorstore.resetNamespace pre ns fate sys.store).2 }
  | .assignShards leader order request, sys =>
    if leader ∈ sys.elected then some { sys with assignments := sys.assignments ++ [⟨leader, order, request⟩] }
    else none
  | .deleteExecutors leader maxEtcdTxnOps executorIDs, sys =>
    if leader ∈ sys.elected then
      some (beginDelete leader (executorstore.deleteExecutors pre ns maxEtcdTxnOps executorIDs leader.guard) sys)
    else none
  | .deleteShardStats leader order maxEtcdTxnOps shardIDs, sys =>
    if leader ∈ sys.elected then
      match executorstore.deleteShardStats pre ns order maxEtcdTxnOps shardIDs leader.guard sys.store with
      | .ok progress => some (beginDelete leader progress sys)
      | .error _ => some sys
    else none
  | .sendAssignment i fate, sys =>
    match sys.assignments[i]? with
    | some a => some (sendAssignment pre ns a i fate sys)
    | none => none
  | .sendBatch i fate, sys =>
    match sys.deletes[i]? with
    | some d =>
      match d.progress with
      | .running call => some (sendBatch d call i fate sys)
      | .returned _ => none
    | none => none
  | .other txn fate, sys => some { sys with store := (txn.send fate sys.store).2 }

end Step

end leaderstore
