import ShardManager.ExecutorStore.WriteOps
import ShardManager.Handler.Heartbeat

open golang etcd etcdkeys store types executorstore

namespace heartbeats

open etcdtypes (Value Encoding)
open handler (readExecutorState storeHeartbeat)

variable {F : Type}

/-- A `Heartbeat` call between its parts: it has read the state of its executor,
and possibly stored its heartbeat. `deleted` is kept for reasoning only: since
the read, a stored heartbeat of the executor has gone. -/
structure Call (F : Type) where
  request : ExecutorHeartbeatRequest F
  heartbeatTime : Time
  executorState : ExecutorState F
  stored : Bool
  deleted : Bool

/-- One namespace: the store with the batched calls in progress on it, and the
heartbeats in progress. -/
structure System (F : Type) where
  writers : Writers F
  calls : List (Call F)

def System.store (sys : System F) : Store (Value F) := sys.writers.store

/-- An empty store and nothing in progress. -/
def initial : System F := ⟨⟨.empty, []⟩, []⟩

inductive Label (F : Type) where
  /-- A heartbeat arrives and reads the state of its executor. -/
  | read (registry : namespaces.Registry) (request : ExecutorHeartbeatRequest F) (heartbeatTime : Time)
  /-- A heartbeat in progress is stored. -/
  | store (i : Nat) (order : RangeOrder) (fate : Fate)
  /-- The statistics of a stored heartbeat are recorded, and the call returns. -/
  | statistics (i : Nat) (cfg : handler.Config) (order : RangeOrder) (fate : Fate)
  /-- Any other operation on the namespace. -/
  | write (label : Write F)

section Step

variable (pre ns : String)

def hasHeartbeat (s : Store (Value F)) (executorID : String) : Bool :=
  (s.get (buildExecutorKey pre ns executorID .heartbeat)).isSome

def Call.observe (s s' : Store (Value F)) (call : Call F) : Call F :=
  { call with deleted := call.deleted ||
      (hasHeartbeat pre ns s call.request.executorID && !hasHeartbeat pre ns s' call.request.executorID) }

/-- The system after a step of its writers. -/
def System.after (sys : System F) (writers : Writers F) (calls : List (Call F)) : System F where
  writers := writers
  calls := calls.map (Call.observe pre ns sys.store writers.store)

variable [Float64 F] [ExpFloat64 F] [DecidableEq F] [Encoding F]

def step : Label F → System F → Option (System F)
  | .read registry request heartbeatTime, sys =>
    if request.ns = ns then
      match readExecutorState pre registry request sys.store with
      | .error _ => some sys
      | .ok executorState =>
        some { sys with calls := sys.calls ++ [⟨request, heartbeatTime, executorState, false, false⟩] }
    else none
  | .store i order fate, sys =>
    match sys.calls[i]? with
    | none => none
    | some call =>
      if call.stored then none
      else match storeHeartbeat pre order call.request call.heartbeatTime call.executorState fate sys.store with
        | (.error _, s) => some (sys.after pre ns { sys.writers with store := s } (sys.calls.eraseIdx i))
        | (.ok (), s) => some (sys.after pre ns { sys.writers with store := s }
            (sys.calls.set i { call with stored := true }))
  | .statistics i cfg order fate, sys =>
    match sys.calls[i]? with
    | none => none
    | some call =>
      if call.stored then
        some (sys.after pre ns { sys.writers with
          store := handler.recordShardStatistics pre cfg order call.request call.executorState.assignment
            call.executorState.statistics call.heartbeatTime fate sys.store } (sys.calls.eraseIdx i))
      else none
  | .write label, sys => (write pre ns label sys.writers).map fun w => sys.after pre ns w sys.calls

end Step

end heartbeats
