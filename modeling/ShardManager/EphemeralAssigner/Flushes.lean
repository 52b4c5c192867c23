import ShardManager.Abstract.Trace
import ShardManager.Backoff.Retry
import ShardManager.EphemeralAssigner.ExactlyOnce
import ShardManager.EphemeralAssigner.Results
import ShardManager.ExecutorStore.Writers

open golang etcd store batcher executorstore

namespace ephemeralassigner

def versionConflictRetryInitialInterval : Duration := 50 * Time.millisecond

def versionConflictRetryMaxInterval : Duration := 1000 * Time.millisecond

def versionConflictRetryMaxAttempts : Int := 3

def AttemptError.isVersionConflict : AttemptError → Bool
  | .assignShards cause => cause.isVersionConflict
  | _ => false

/-- The error as `processBatch` returns it. `%q` is not applied to the ID. -/
def AttemptError.message : AttemptError → String
  | .getState cause => "get namespace state: " ++ cause
  | .failed (.error message) => message
  | .failed (.panic reason) => reason
  | .assignShards cause => "assign ephemeral shards: " ++ cause.message
  | .getExecutor executorID cause => "get executor " ++ quote executorID ++ ": " ++ cause

/-- The retries of `assignEphemeralBatch`. -/
def throttleRetry : backoff.ThrottleRetry AttemptError :=
  { backoff.newThrottleRetry fun _ => false with
    policy := { backoff.newExponentialRetryPolicy versionConflictRetryInitialInterval with
      maximumInterval := versionConflictRetryMaxInterval
      maximumAttempts := versionConflictRetryMaxAttempts }
    isRetryable := AttemptError.isVersionConflict }

/-- Only drained shards keep their error. -/
def mapAssignError : BatchError → BatchError
  | .shardDrained ns shardKey => .shardDrained ns shardKey
  | .failed message => .internalService ("failed to assign ephemeral shard: " ++ message)
  | .internalService message => .internalService ("failed to assign ephemeral shard: " ++ message)
  | .canceled => .internalService "failed to assign ephemeral shard: context canceled"

/-- `GetOrAssign`, given what the batcher answers. -/
def getOrAssign (res : BatchResponse) : BatchResponse :=
  match res.err with
  | some err => ⟨none, some (mapAssignError err)⟩
  | none => ⟨res.resp, none⟩

end ephemeralassigner

namespace assigning

open ephemeralassigner
open etcdtypes (Value Encoding)

variable {F : Type}

/-- What an attempt goes by: the snapshot it has read, the configuration and the
time. -/
structure Input (F : Type) where
  order : RangeOrder
  cfg : loadbalancer.Config F
  now : Time
  state : NamespaceState F

/-- Where an attempt is. -/
inductive Phase (F : Type) where
  | reading
  | writing (input : Input F) (request : AssignShardsRequest F)
  | fetching (input : Input F)
  | returned (res : FlushResult)

/-- A call of `assignEphemeralBatch` for the requests of a flush. The number of
its attempts and of the stores that had been before it are kept for reasoning
only. -/
structure Flush (F : Type) where
  reqs : List BatchRequest
  loop : backoff.Loop AttemptError
  phase : Phase F
  attempts : ℕ
  since : ℕ

/-- The assigner of a namespace on one replica, with all writers of the
namespace. The stores that had been so far, and how many there were when a
request was submitted, are kept for reasoning only. -/
structure System (F : Type) where
  batcher : ShardBatcher
  flushes : List (Flush F)
  writers : Writers F
  past : List (Store (Value F))
  submitted : ℕ → ℕ

def initial : System F := ⟨newShardBatcher, [], ⟨.empty, []⟩, [], fun _ => 0⟩

/-- The stores up to the current one. -/
def System.stores (sys : System F) : List (Store (Value F)) := sys.past ++ [sys.writers.store]

inductive Label (F : Type) where
  /-- A step of the batcher and its callers, at some time. -/
  | batcher (label : batcher.Label) (now : Time) (later : ℕ)
  /-- An operation of anybody else on the namespace. -/
  | write (write : Write F)
  | read (i : ℕ) (order : RangeOrder) (cfg : loadbalancer.Config F) (now : Time)
  /-- `GetState` fails. -/
  | readFails (i : ℕ) (cause : String) (met : backoff.Turn AttemptError)
  | send (i : ℕ) (fate : Fate) (met : backoff.Turn AttemptError)
  /-- The metadata of the owners is looked up in the cache. -/
  | fetch (i : ℕ) (getExecutor : String → Except String cache.ShardOwner) (met : backoff.Turn AttemptError)
  /-- `processBatch` returns. -/
  | flushReturns (i : ℕ)

/-- What the cache returns for an executor comes from one of its loads. -/
def Label.Cached : Label F → Prop
  | .fetch _ getExecutor _ => ∀ executorID owner, getExecutor executorID = .ok owner →
      ∃ order state, (cache.fromNamespaceState order state).shardOwners.lookup executorID = some owner
  | _ => True

abbrev AttemptResult := Except AttemptError (Map String (Option GetShardOwnerResponse) × KeySet String)

def Flush.shardKeys (flush : Flush F) : List String := flush.reqs.map BatchRequest.shardKey

/-- `Do` decides what becomes of the flush when an attempt returns. -/
def Flush.finish (fl : Rounding) (met : backoff.Turn AttemptError)
    (result : AttemptResult) (flush : Flush F) : Flush F :=
  match result with
  | .ok (results, drained) => { flush with phase := .returned ⟨results, drained, none⟩ }
  | .error err =>
    match throttleRetry.turn fl flush.loop { met with outcome := some err } with
    | .returned err _ => { flush with phase := .returned ⟨∅, ∅, err.map fun err => .failed err.message⟩ }
    | .continued loop => { flush with phase := .reading, loop := loop }

def newFlush (now : Time) (later since : ℕ) (reqs : List BatchRequest) : Flush F where
  reqs := reqs
  loop := ⟨none, backoff.newRetrier throttleRetry.policy now,
    backoff.newRetrier throttleRetry.throttlePolicy (now + later), now + later⟩
  phase := .reading
  attempts := 0
  since := since

namespace System

def setFlush (sys : System F) (i : ℕ) (flush : Flush F) : System F := { sys with flushes := sys.flushes.set i flush }

/-- A store transaction. -/
def setWriters (sys : System F) (writers : Writers F) : System F :=
  { sys with writers := writers, past := sys.stores }

def submittedBy (sys : System F) : batcher.Label → ℕ → ℕ
  | .submit _ => Function.update sys.submitted sys.batcher.nextID sys.past.length
  | _ => sys.submitted

/-- A step of the batcher, which may start a flush. -/
def batcherStep (ns : String) (label : batcher.Label) (now : Time) (later : ℕ) (sys : System F) : Option (System F) :=
  match label with
  | .flushReturns _ _ => none
  | label => (batcher.step ns label sys.batcher).map fun b => { sys with
      batcher := b
      flushes := sys.flushes ++ (b.flushes.drop sys.batcher.flushes.length).map (newFlush now later sys.past.length)
      submitted := sys.submittedBy label }

end System

section Step

variable (pre ns : String) (fl : Rounding) [Float64 F] [DecidableEq F] [Encoding F]

def step : Label F → System F → Option (System F)
  | .batcher label now later, sys => sys.batcherStep ns label now later
  | .write write, sys => (executorstore.write pre ns write sys.writers).map sys.setWriters
  | .read i order cfg now, sys =>
    match sys.flushes[i]? with
    | some flush =>
      match flush.phase, getState pre ns order sys.writers.store with
      | .reading, .ok state =>
        some (sys.setFlush i { flush with
          attempts := flush.attempts + 1
          phase := match planBatch order cfg now state flush.shardKeys with
            | .ok (some batch) => .writing ⟨order, cfg, now, state⟩ batch.request
            | _ => .fetching ⟨order, cfg, now, state⟩ })
      | _, _ => none
    | none => none
  | .readFails i cause met, sys =>
    match sys.flushes[i]? with
    | some flush =>
      match flush.phase with
      | .reading => some (sys.setFlush i
          ({ flush with attempts := flush.attempts + 1 }.finish fl met (.error (.getState cause))))
      | _ => none
    | none => none
  | .send i fate met, sys =>
    match sys.flushes[i]? with
    | some flush =>
      match flush.phase with
      | .writing input request =>
        match assignShards pre ns input.order request nopGuard fate sys.writers.store with
        | (.ok (), s) =>
          some ((sys.setWriters { sys.writers with store := s }).setFlush i { flush with phase := .fetching input })
        | (.error cause, s) =>
          some ((sys.setWriters { sys.writers with store := s }).setFlush i
            (flush.finish fl met (.error (.assignShards cause))))
      | _ => none
    | none => none
  | .fetch i getExecutor met, sys =>
    match sys.flushes[i]? with
    | some flush =>
      match flush.phase with
      | .fetching input =>
        match (tryAssignEphemeralBatch input.order input.cfg input.now ns (.ok input.state) (fun _ => .ok ())
            getExecutor flush.shardKeys).result with
        -- The process dies.
        | .error (.failed (.panic _)) => none
        | result => some (sys.setFlush i (flush.finish fl met result))
      | _ => none
    | none => none
  | .flushReturns i, sys =>
    match sys.flushes[i]? with
    | some flush =>
      match flush.phase with
      | .returned res =>
        (batcher.step ns (.flushReturns i res) sys.batcher).map fun b =>
          { sys with batcher := b, flushes := sys.flushes.eraseIdx i }
      | _ => none
    | none => none

end Step

end assigning
