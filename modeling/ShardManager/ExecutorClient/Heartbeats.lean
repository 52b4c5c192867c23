import ShardManager.ExecutorClient.Processors

open golang types

namespace executorclient

/-- What a heartbeat RPC returns: an error, or the assignments, which may be nil. -/
inductive Answer where
  | failed
  | assigned (assignments : Option (Map String ShardAssignment))

/-- A call of the singleflight group. Its function sends one RPC with status
ACTIVE; the RPCs are numbered in the order in which they are sent. -/
inductive FlightPhase where
  | entered
  | sent (rpc : Nat)
  | answered (rpc : Nat) (answer : Answer)

structure Flight where
  phase : FlightPhase
  /-- How many callers joined. -/
  dups : Nat

/-- The goroutines that heartbeat. -/
inductive Owner where
  | loop
  | caller (i : Nat)
deriving DecidableEq, Repr

/-- An `updateShardAssignment` under the `assignmentMutex`, with the RPC whose
response it applies. -/
structure Update where
  owner : Owner
  rpc : Nat
  work : Work

/-- What the goroutines of an executor share. `flights` are all calls of the
singleflight group, of which `current` is the one in its map. How many
heartbeats were sent, and which response was applied last, is recorded for the
statements about them. -/
structure Executor where
  registry : Registry
  flights : List Flight
  current : Option Nat
  update : Option Update
  enabled : Bool
  activeSent : Nat
  drainingSent : Nat
  applied : Option Nat

def Executor.initial (enabled : Bool) : Executor := ⟨.empty, [], none, none, enabled, 0, 0, none⟩

/-- Where a goroutine is in `heartbeatAndUpdateAssignment`: before or in the
first or second `doHeartbeat`, or with a response to apply. The leader of a
flight is the goroutine that runs its function. -/
inductive Beat where
  | calling (again : Bool)
  | waiting (again : Bool) (flight : Nat) (leader : Bool)
  | locking (rpc : Nat) (assignments : Map String ShardAssignment)
  | updating
  | done (ok : Bool)

inductive BeatLabel where
  | next
  | send
  | answer (answer : Answer)
  | finish
  | work (label : WorkLabel)

namespace Beat

/-- `doHeartbeat` enters the group: it joins the current flight or starts one. -/
def enter (again : Bool) (e : Executor) : Beat × Executor :=
  match e.current with
  | some f =>
    (.waiting again f false,
      { e with flights := e.flights.modify f fun flight => { flight with dups := flight.dups + 1 } })
  | none =>
    (.waiting again e.flights.length true,
      { e with flights := e.flights ++ [⟨.entered, 0⟩], current := some e.flights.length })

/-- The response names the shard of the call. -/
def names (shardID : String) (assignments : Option (Map String ShardAssignment)) : Bool :=
  shardID != "" && assignments.any fun assignments => decide (shardID ∈ assignments)

/-- The call was not the only one of its flight. -/
def shared (leader : Bool) (dups : Nat) : Bool := !leader || decide (0 < dups)

/-- What `Heartbeat` does with the response of a flight, and
`heartbeatAndUpdateAssignment` with what it returns. -/
def respond (shardID : String) (again shared : Bool) (rpc : Nat) : Answer → Beat
  | .failed => .done false
  | .assigned assignments =>
    if !again && shared && !names shardID assignments then .calling true
    else
      match assignments with
      | some assignments => .locking rpc assignments
      | none => .done true

def advance (order : RangeOrder) (owner : Owner) (shardID : String) (e : Executor) :
    Beat → BeatLabel → Option (Beat × Executor)
  | .calling again, .next => some (enter again e)
  | .waiting again f true, .send =>
    match e.flights[f]? with
    | some ⟨.entered, dups⟩ =>
      some (.waiting again f true,
        { e with flights := e.flights.set f ⟨.sent e.activeSent, dups⟩, activeSent := e.activeSent + 1 })
    | _ => none
  | .waiting again f true, .answer answer =>
    match e.flights[f]? with
    | some ⟨.sent rpc, dups⟩ =>
      some (.waiting again f true, { e with flights := e.flights.set f ⟨.answered rpc answer, dups⟩ })
    | _ => none
  | .waiting again f true, .finish =>
    match e.flights[f]? with
    | some ⟨.answered _ _, _⟩ =>
      if e.current = some f then some (.waiting again f true, { e with current := none }) else none
    | _ => none
  | .waiting again f leader, .next =>
    match e.flights[f]? with
    | some ⟨.answered rpc answer, dups⟩ =>
      if e.current = some f then none
      else some (respond shardID again (shared leader dups) rpc answer, e)
    | _ => none
  | .locking rpc assignments, .next =>
    match e.update with
    | none =>
      some (.updating,
        { e with
          update := some ⟨owner, rpc, updateShardAssignment order assignments e.registry⟩
          applied := some rpc })
    | some _ => none
  | .updating, .work label =>
    match e.update with
    | some u =>
      if u.owner = owner then
        (u.work.advance e.registry label).map fun (work, registry) =>
          (.updating, { e with registry, update := some { u with work } })
      else none
    | none => none
  | .updating, .next =>
    match e.update with
    | some u => if u.owner = owner ∧ u.work.finished = true then some (.done true, { e with update := none }) else none
    | none => none
  | _, _ => none

/-- Everything that a step can do. -/
inductive Moves (order : RangeOrder) (owner : Owner) (shardID : String) (e : Executor) :
    Beat → BeatLabel → Beat → Executor → Prop where
  | join (again f) (hcurrent : e.current = some f) :
      Moves order owner shardID e (.calling again) .next (.waiting again f false)
        { e with flights := e.flights.modify f fun flight => { flight with dups := flight.dups + 1 } }
  | lead (again) (hcurrent : e.current = none) :
      Moves order owner shardID e (.calling again) .next (.waiting again e.flights.length true)
        { e with flights := e.flights ++ [⟨.entered, 0⟩], current := some e.flights.length }
  | send (again f dups) (hflight : e.flights[f]? = some ⟨.entered, dups⟩) :
      Moves order owner shardID e (.waiting again f true) .send (.waiting again f true)
        { e with flights := e.flights.set f ⟨.sent e.activeSent, dups⟩, activeSent := e.activeSent + 1 }
  | answer (again f rpc dups answer) (hflight : e.flights[f]? = some ⟨.sent rpc, dups⟩) :
      Moves order owner shardID e (.waiting again f true) (.answer answer) (.waiting again f true)
        { e with flights := e.flights.set f ⟨.answered rpc answer, dups⟩ }
  | finish (again f rpc answer dups) (hflight : e.flights[f]? = some ⟨.answered rpc answer, dups⟩)
      (hcurrent : e.current = some f) :
      Moves order owner shardID e (.waiting again f true) .finish (.waiting again f true) { e with current := none }
  | respond (again f leader rpc answer dups) (hflight : e.flights[f]? = some ⟨.answered rpc answer, dups⟩)
      (hcurrent : e.current ≠ some f) :
      Moves order owner shardID e (.waiting again f leader) .next
        (respond shardID again (shared leader dups) rpc answer) e
  | lock (rpc assignments) (hupdate : e.update = none) :
      Moves order owner shardID e (.locking rpc assignments) .next .updating
        { e with
          update := some ⟨owner, rpc, updateShardAssignment order assignments e.registry⟩
          applied := some rpc }
  | work (u label work registry) (hupdate : e.update = some u) (howner : u.owner = owner)
      (hmoves : u.work.Moves e.registry label work registry) :
      Moves order owner shardID e .updating (.work label) .updating
        { e with registry, update := some { u with work } }
  | unlock (u) (hupdate : e.update = some u) (howner : u.owner = owner) (hfinished : u.work.finished = true) :
      Moves order owner shardID e .updating .next (.done true) { e with update := none }

theorem moves_of_advance {order : RangeOrder} {owner : Owner} {shardID : String} {e e' : Executor}
    {beat beat' : Beat} {label : BeatLabel} (h : beat.advance order owner shardID e label = some (beat', e')) :
    Moves order owner shardID e beat label beat' e' := by
  unfold advance at h
  split at h
  case h_1 again =>
    dsimp only [enter] at h
    split at h
    · rename_i f hcurrent
      cases h
      exact .join again f hcurrent
    · rename_i hcurrent
      cases h
      exact .lead again hcurrent
  case h_2 again f =>
    split at h
    · rename_i dups hflight
      cases h
      exact .send again f dups hflight
    · cases h
  case h_3 again f answer =>
    split at h
    · rename_i rpc dups hflight
      cases h
      exact .answer again f rpc dups answer hflight
    · cases h
  case h_4 again f =>
    split at h
    · rename_i rpc answer dups hflight
      split at h
      · rename_i hcurrent
        cases h
        exact .finish again f rpc answer dups hflight hcurrent
      · cases h
    · cases h
  case h_5 again f leader =>
    split at h
    · rename_i rpc answer dups hflight
      split at h
      · cases h
      · rename_i hcurrent
        cases h
        exact .respond again f leader rpc answer dups hflight hcurrent
    · cases h
  case h_6 rpc assignments =>
    split at h
    · rename_i hupdate
      cases h
      exact .lock rpc assignments hupdate
    · cases h
  case h_7 label =>
    split at h
    · rename_i u hupdate
      split at h
      · rename_i howner
        obtain ⟨⟨work, registry⟩, hadvance, heq⟩ := Option.map_eq_some_iff.mp h
        cases heq
        exact .work u label work registry hupdate howner (Work.moves_of_advance hadvance)
      · cases h
    · cases h
  case h_8 =>
    split at h
    · rename_i u hupdate
      split at h
      · rename_i hcond
        cases h
        exact .unlock u hupdate hcond.1 hcond.2
      · cases h
    · cases h
  case h_9 => cases h

end Beat

/-- What `GetShardProcess` returns. -/
inductive Result where
  | found (p : Nat)
  | notFound
  | failed
deriving DecidableEq, Repr

inductive CallPhase where
  | firstLoad
  | checkEnabled
  | beating (beat : Beat)
  | secondLoad
  | returned (result : Result)

/-- A call of `GetShardProcess`, with the number of RPCs sent before it began. -/
structure Caller where
  shardID : String
  since : Nat
  phase : CallPhase

inductive CallLabel where
  | next
  | beat (label : BeatLabel)

def Caller.advance (order : RangeOrder) (i : Nat) (e : Executor) (c : Caller) :
    CallLabel → Option (Caller × Executor)
  | .next =>
    match c.phase with
    | .firstLoad =>
      match e.registry.managed.lookup c.shardID with
      | some p => some ({ c with phase := .returned (.found p) }, e)
      | none => some ({ c with phase := .checkEnabled }, e)
    | .checkEnabled =>
      if e.enabled then some ({ c with phase := .beating (.calling false) }, e)
      else some ({ c with phase := .returned .notFound }, e)
    | .beating (.done true) => some ({ c with phase := .secondLoad }, e)
    | .beating (.done false) => some ({ c with phase := .returned .failed }, e)
    | .secondLoad =>
      match e.registry.managed.lookup c.shardID with
      | some p => some ({ c with phase := .returned (.found p) }, e)
      | none => some ({ c with phase := .returned .notFound }, e)
    | _ => none
  | .beat label =>
    match c.phase with
    | .beating beat =>
      (beat.advance order (.caller i) c.shardID e label).map fun (beat, e) => ({ c with phase := .beating beat }, e)
    | _ => none

/-- What takes the heartbeat loop out of service. -/
inductive Signal where
  | ctxDone
  | stopC
  | drain
deriving DecidableEq, Repr

/-- Where `heartbeatloop` is. -/
inductive Loop where
  | selecting
  | ticked
  | beating (beat : Beat)
  | stopping (signal : Signal) (work : Work)
  | draining (signal : Signal)
  | drainingSent (signal : Signal)
  | waitingForUndrain
  | ended

inductive LoopLabel where
  | tick
  | signal (signal : Signal)
  | undrain
  | next
  | beat (label : BeatLabel)
  | work (label : WorkLabel)

namespace Loop

/-- The loop has handled a signal that takes it out of service. -/
def handled : Signal → Loop
  | .drain => .waitingForUndrain
  | _ => .ended

def advance (order : RangeOrder) (e : Executor) : Loop → LoopLabel → Option (Loop × Executor)
  | .selecting, .tick => some (.ticked, e)
  | .selecting, .signal signal => some (.stopping signal (stopShardProcessors e.registry), e)
  | .ticked, .next => if e.enabled then some (.beating (.calling false), e) else some (.selecting, e)
  | .beating beat, .beat label =>
    (beat.advance order .loop "" e label).map fun (beat, e) => (.beating beat, e)
  | .beating (.done _), .next => some (.selecting, e)
  | .stopping signal work, .work label =>
    (work.advance e.registry label).map fun (work, registry) => (.stopping signal work, { e with registry })
  | .stopping signal work, .next =>
    if work.finished && work.stopped e.registry then some (.draining signal, e) else none
  | .draining signal, .next =>
    if e.enabled then some (.drainingSent signal, { e with drainingSent := e.drainingSent + 1 })
    else some (handled signal, e)
  | .drainingSent signal, .next => some (handled signal, e)
  | .waitingForUndrain, .undrain => some (.selecting, e)
  | .waitingForUndrain, .signal .ctxDone => some (.ended, e)
  | .waitingForUndrain, .signal .stopC => some (.ended, e)
  | _, _ => none

end Loop

structure System where
  executor : Executor
  callers : List Caller
  loop : Loop

namespace System

inductive Label where
  | call (shardID : String)
  | caller (i : Nat) (label : CallLabel)
  | loop (label : LoopLabel)
  | async (label : Async)
  | setEnabled (enabled : Bool)

def initial (enabled : Bool) : System := ⟨.initial enabled, [], .selecting⟩

def step (order : RangeOrder) : Label → System → Option System
  | .call shardID, sys =>
    some { sys with callers := sys.callers ++ [⟨shardID, sys.executor.activeSent, .firstLoad⟩] }
  | .caller i label, sys =>
    match sys.callers[i]? with
    | some c =>
      (c.advance order i sys.executor label).map fun (c, executor) =>
        { sys with executor, callers := sys.callers.set i c }
    | none => none
  | .loop label, sys =>
    (sys.loop.advance order sys.executor label).map fun (loop, executor) => { sys with executor, loop }
  | .async label, sys =>
    (sys.executor.registry.async label).map fun registry =>
      { sys with executor := { sys.executor with registry } }
  | .setEnabled enabled, sys => some { sys with executor := { sys.executor with enabled } }

end System

end executorclient
