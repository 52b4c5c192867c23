import ShardManager.Abstract.Transition
import ShardManager.State

open golang types

namespace executorclient

/-- `processorState`. -/
inductive ProcessorState where
  | starting
  | started
  | stopping
deriving DecidableEq, Repr

/-- How far the goroutine is that calls `Start`. It acts on the outcome after
the call has returned. -/
inductive StartCall where
  | launched
  | running
  | returned (ok handled : Bool)
deriving DecidableEq, Repr

structure Processor where
  shardID : String
  state : ProcessorState
  start : StartCall
deriving DecidableEq, Repr

/-- `Start` has been called on the processor. -/
def Processor.startInvoked (processor : Processor) : Bool := processor.start != .launched

/-- `Start` has returned an error. -/
def Processor.startFailed (processor : Processor) : Bool :=
  match processor.start with
  | .returned false _ => true
  | _ => false

/-- A call of `Stop`, which runs on a goroutine of its own. -/
structure StopCall where
  processor : Nat
  returned : Bool
deriving DecidableEq, Repr

/-- All processors ever created, the calls of `Stop` on them, and
`managedProcessors`. Processors are named by their position. -/
structure Registry where
  processors : List Processor
  stops : List StopCall
  managed : Map String Nat

namespace Registry

def empty : Registry := ⟨[], [], ∅⟩

/-- `Stop` has been called on the processor. -/
def stopInvoked (r : Registry) (p : Nat) : Bool := r.stops.any fun stop => stop.processor == p

def setState (r : Registry) (p : Nat) (state : ProcessorState) : Registry :=
  { r with processors := r.processors.modify p fun processor => { processor with state } }

def setStart (r : Registry) (p : Nat) (start : StartCall) : Registry :=
  { r with processors := r.processors.modify p fun processor => { processor with start } }

/-- `managedProcessors.Delete`. -/
def delete (r : Registry) (shardID : String) : Registry := { r with managed := r.managed.erase shardID }

/-- Deletes the entry of a shard and calls `Stop` on a processor. -/
def stop (r : Registry) (shardID : String) (p : Nat) : Registry :=
  { r.delete shardID with stops := r.stops ++ [⟨p, false⟩] }

/-- Stores a new processor, with `Start` about to be called on it. -/
def create (r : Registry) (shardID : String) : Registry :=
  { r with
    processors := r.processors ++ [⟨shardID, .starting, .launched⟩]
    managed := r.managed.insert shardID r.processors.length }

/-- A processor after one of them was changed. -/
theorem exists_of_modify {r : Registry} {p q : Nat} {f : Processor → Processor} {processor : Processor}
    (h : (r.processors.modify p f)[q]? = some processor) :
    ∃ before, r.processors[q]? = some before ∧ (p = q ∧ processor = f before ∨ p ≠ q ∧ processor = before) := by
  rw [List.getElem?_modify] at h
  obtain ⟨before, hbefore, heq⟩ := Option.map_eq_some_iff.mp h
  refine ⟨before, hbefore, ?_⟩
  by_cases hq : p = q
  · exact .inl ⟨hq, by rw [← heq, if_pos hq]⟩
  · exact .inr ⟨hq, by rw [← heq, if_neg hq]⟩

/-- A processor after one was created. -/
theorem processor_of_create {r : Registry} {shardID : String} {q : Nat} {processor : Processor}
    (h : (r.create shardID).processors[q]? = some processor) :
    r.processors[q]? = some processor ∨
      q = r.processors.length ∧ processor = ⟨shardID, .starting, .launched⟩ := by
  have happend : (r.processors ++ [⟨shardID, .starting, .launched⟩])[q]? = some processor := h
  rw [List.getElem?_append] at happend
  split at happend
  · exact .inl happend
  · obtain ⟨hlt, rfl⟩ := List.getElem?_eq_some_iff.mp happend
    rw [List.length_singleton] at hlt
    refine .inr ⟨by omega, ?_⟩
    simp

end Registry

/-- What the goroutines of `Start` and `Stop` do. -/
inductive Async where
  | invokeStart (p : Nat)
  | startReturns (p : Nat) (ok : Bool)
  /-- After an error the entry of the shard is deleted. -/
  | startHandled (p : Nat)
  | stopReturns (i : Nat)
deriving DecidableEq, Repr

def Registry.async (r : Registry) : Async → Option Registry
  | .invokeStart p =>
    match r.processors[p]? with
    | some ⟨_, _, .launched⟩ => some (r.setStart p .running)
    | _ => none
  | .startReturns p ok =>
    match r.processors[p]? with
    | some ⟨_, _, .running⟩ => some (r.setStart p (.returned ok false))
    | _ => none
  | .startHandled p =>
    match r.processors[p]? with
    | some ⟨shardID, _, .returned ok false⟩ =>
      some ((if ok then r.setState p .started else r.delete shardID).setStart p (.returned ok true))
    | _ => none
  | .stopReturns i =>
    match r.stops[i]? with
    | some stop => some { r with stops := r.stops.set i { stop with returned := true } }
    | none => none

/-- Everything that a step of these goroutines can do. -/
inductive Registry.Acts (r : Registry) : Async → Registry → Prop where
  | invokeStart (p processor) (hprocessor : r.processors[p]? = some processor)
      (hstart : processor.start = .launched) : Acts r (.invokeStart p) (r.setStart p .running)
  | startReturns (p ok processor) (hprocessor : r.processors[p]? = some processor)
      (hstart : processor.start = .running) : Acts r (.startReturns p ok) (r.setStart p (.returned ok false))
  | startSucceeded (p processor) (hprocessor : r.processors[p]? = some processor)
      (hstart : processor.start = .returned true false) :
      Acts r (.startHandled p) ((r.setState p .started).setStart p (.returned true true))
  | startFailed (p processor) (hprocessor : r.processors[p]? = some processor)
      (hstart : processor.start = .returned false false) :
      Acts r (.startHandled p) ((r.delete processor.shardID).setStart p (.returned false true))
  | stopReturns (i stop) (hstop : r.stops[i]? = some stop) :
      Acts r (.stopReturns i) { r with stops := r.stops.set i { stop with returned := true } }

theorem Registry.acts_of_async {r r' : Registry} {label : Async} (h : r.async label = some r') :
    r.Acts label r' := by
  unfold Registry.async at h
  split at h
  case h_1 p =>
    split at h
    · rename_i hprocessor
      cases h
      exact .invokeStart p _ hprocessor rfl
    · cases h
  case h_2 p ok =>
    split at h
    · rename_i hprocessor
      cases h
      exact .startReturns p ok _ hprocessor rfl
    · cases h
  case h_3 p =>
    split at h
    · rename_i ok hprocessor
      cases h
      cases ok with
      | true => exact .startSucceeded p _ hprocessor rfl
      | false => exact .startFailed p _ hprocessor rfl
    · cases h
  case h_4 i =>
    split at h
    · rename_i stop hstop
      cases h
      exact .stopReturns i stop hstop
    · cases h

/-- The shard is assigned to the executor and ready. -/
def ready (assignments : Map String ShardAssignment) (shardID : String) : Bool :=
  match assignments.lookup shardID with
  | some assignment => assignment.status == .ready
  | none => false

/-- Where a goroutine is in `updateShardAssignment` or `stopShardProcessors`:
ranging over the processors, in `stopManagerProcessor` with the processor it
has loaded, going through the shards to add, or in `addManagerProcessor` after
it found no processor. -/
inductive Phase where
  | ranging
  | loaded (shardID : String) (p : Nat)
  | checked (shardID : String) (p : Nat)
  | marked (shardID : String) (p : Nat)
  | adding
  | creating (shardID : String)
deriving DecidableEq, Repr

structure Work where
  assignments : Map String ShardAssignment
  /-- The keys that `Range` has to visit and those it has visited. -/
  pending : List String
  seen : List String
  toAdd : List String
  /-- The calls of `Stop` it made. -/
  waits : List Nat
  phase : Phase

def updateShardAssignment (order : RangeOrder) (assignments : Map String ShardAssignment) (r : Registry) : Work where
  assignments := assignments
  pending := r.managed.keys
  seen := []
  toAdd := (order.rangeKeys "updateShardAssignment" assignments).filter (ready assignments)
  waits := []
  phase := .ranging

/-- The same without any assignment. -/
def stopShardProcessors (r : Registry) : Work := ⟨∅, r.managed.keys, [], [], [], .ranging⟩

inductive WorkLabel where
  /-- `Range` visits every key that is there all the time, once, and may visit
  others that are stored meanwhile. -/
  | visit (shardID : String)
  | rangeDone
  | next
  | factoryFails
deriving DecidableEq, Repr

namespace Work

def advance (w : Work) (r : Registry) : WorkLabel → Option (Work × Registry)
  | .visit shardID =>
    if w.phase = .ranging ∧ shardID ∉ w.seen ∧ (shardID ∈ w.pending ∨ shardID ∈ r.managed) then
      let w := { w with pending := w.pending.erase shardID, seen := shardID :: w.seen }
      if ready w.assignments shardID then some (w, r)
      else
        match r.managed.lookup shardID with
        | some p => some ({ w with phase := .loaded shardID p }, r)
        | none => some (w, r)
    else none
  | .rangeDone =>
    if w.phase = .ranging ∧ w.pending = [] then some ({ w with phase := .adding }, r) else none
  | .next =>
    match w.phase with
    | .loaded shardID p =>
      if (r.processors[p]?.map (·.state)) = some .stopping then some ({ w with phase := .ranging }, r)
      else some ({ w with phase := .checked shardID p }, r)
    | .checked shardID p => some ({ w with phase := .marked shardID p }, r.setState p .stopping)
    | .marked shardID p =>
      some ({ w with phase := .ranging, waits := w.waits ++ [r.stops.length] }, r.stop shardID p)
    | .adding =>
      match w.toAdd with
      | [] => none
      | shardID :: rest =>
        match r.managed.lookup shardID with
        | some _ => some ({ w with toAdd := rest }, r)
        | none => some ({ w with toAdd := rest, phase := .creating shardID }, r)
    | .creating shardID => some ({ w with phase := .adding }, r.create shardID)
    | .ranging => none
  | .factoryFails =>
    match w.phase with
    | .creating _ => some ({ w with phase := .adding }, r)
    | _ => none

/-- Nothing is left to do. -/
def finished (w : Work) : Bool := w.phase == .adding && w.toAdd.isEmpty

/-- The calls of `Stop` it made have returned, which `stopShardProcessors`
waits for. -/
def stopped (w : Work) (r : Registry) : Bool :=
  w.waits.all fun i => (r.stops[i]?.map (·.returned)) = some true

/-- The processor that a goroutine is about to stop, with the shard for which
it loaded it. -/
def target (w : Work) : Option (String × Nat) :=
  match w.phase with
  | .loaded shardID p | .checked shardID p | .marked shardID p => some (shardID, p)
  | _ => none

/-- Everything that a step can do, as the registry and the phase see it. -/
inductive Moves (w : Work) (r : Registry) : WorkLabel → Work → Registry → Prop where
  | skip (shardID pending seen) (hphase : w.phase = .ranging) : Moves w r (.visit shardID) { w with pending, seen } r
  | load (pending seen shardID p) (hphase : w.phase = .ranging) (hready : ready w.assignments shardID = false)
      (hlookup : r.managed.lookup shardID = some p) :
      Moves w r (.visit shardID) { w with pending, seen, phase := .loaded shardID p } r
  | rangeDone (hphase : w.phase = .ranging) : Moves w r .rangeDone { w with phase := .adding } r
  | spare (shardID p) (hphase : w.phase = .loaded shardID p) : Moves w r .next { w with phase := .ranging } r
  | check (shardID p) (hphase : w.phase = .loaded shardID p) : Moves w r .next { w with phase := .checked shardID p } r
  | mark (shardID p) (hphase : w.phase = .checked shardID p) :
      Moves w r .next { w with phase := .marked shardID p } (r.setState p .stopping)
  | stop (shardID p) (hphase : w.phase = .marked shardID p) :
      Moves w r .next { w with phase := .ranging, waits := w.waits ++ [r.stops.length] } (r.stop shardID p)
  | present (shardID p rest) (hphase : w.phase = .adding) (htoAdd : w.toAdd = shardID :: rest)
      (hlookup : r.managed.lookup shardID = some p) : Moves w r .next { w with toAdd := rest } r
  | absent (shardID rest) (hphase : w.phase = .adding) (htoAdd : w.toAdd = shardID :: rest)
      (hlookup : r.managed.lookup shardID = none) :
      Moves w r .next { w with toAdd := rest, phase := .creating shardID } r
  | create (shardID) (hphase : w.phase = .creating shardID) :
      Moves w r .next { w with phase := .adding } (r.create shardID)
  | factoryFails (shardID) (hphase : w.phase = .creating shardID) :
      Moves w r .factoryFails { w with phase := .adding } r

theorem moves_of_advance {w w' : Work} {r r' : Registry} {label : WorkLabel}
    (h : w.advance r label = some (w', r')) : Moves w r label w' r' := by
  unfold advance at h
  split at h
  case h_1 shardID =>
    split at h
    · rename_i hcond
      dsimp only at h
      split at h
      · cases h
        exact .skip shardID _ _ hcond.1
      · rename_i hready
        split at h
        · rename_i p hlookup
          cases h
          exact .load _ _ shardID p hcond.1 (Bool.eq_false_iff.mpr hready) hlookup
        · cases h
          exact .skip shardID _ _ hcond.1
    · cases h
  case h_2 =>
    split at h
    · rename_i hcond
      cases h
      exact .rangeDone hcond.1
    · cases h
  case h_3 =>
    split at h
    case h_1 shardID p hphase =>
      split at h <;> cases h
      · exact .spare shardID p hphase
      · exact .check shardID p hphase
    case h_2 shardID p hphase =>
      cases h
      exact .mark shardID p hphase
    case h_3 shardID p hphase =>
      cases h
      exact .stop shardID p hphase
    case h_4 hphase =>
      split at h
      · cases h
      · rename_i shardID rest htoAdd
        split at h
        · rename_i p hlookup
          cases h
          exact .present shardID p rest hphase htoAdd hlookup
        · rename_i hlookup
          cases h
          exact .absent shardID rest hphase htoAdd hlookup
    case h_5 shardID hphase =>
      cases h
      exact .create shardID hphase
    case h_6 => cases h
  case h_4 =>
    split at h
    · rename_i shardID hphase
      cases h
      exact .factoryFails shardID hphase
    · cases h

end Work

end executorclient
