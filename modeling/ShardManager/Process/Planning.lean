import ShardManager.LoadBalancer.Dispatch

open golang store plan types

namespace config

inductive NamespaceType where
  | fixed
  | ephemeral
  | other (name : String)
deriving DecidableEq, Repr

structure Namespace where
  name : String
  type : NamespaceType
  shardNum : Int
deriving DecidableEq, Repr

/-- A positive `fixedShardNum` makes a namespace fixed with that many shards. -/
def effectiveNamespace (ns : Namespace) (fixedShardNum : Int) : Namespace :=
  if fixedShardNum ≤ 0 then ns else { ns with type := .fixed, shardNum := fixedShardNum }

end config

namespace process

variable {F : Type}

/-- Executors without a recent heartbeat, with the revision of their record. -/
def identifyStaleExecutors (heartbeatTTL : Duration) (now : Time) (state : NamespaceState F) :
    Map String Int :=
  Map.ofList ((state.executors.toList.filter fun (_, heartbeat) =>
    decide (heartbeatTTL < now.sub heartbeat.lastHeartbeat)).map
      fun (executorID, _) => (executorID, (state.assigned executorID).modRevision))

/-- The shards some executor reports DONE. A nil report is dereferenced. -/
def findDeletedShards (order : RangeOrder) (state : NamespaceState F) :
    Except Failure (Map String ShardState) :=
  let reports := (order.range "findDeletedShards" state.executors).flatMap fun (executorID, heartbeat) =>
    (order.range s!"findDeletedShards/{executorID}" heartbeat.reportedShards).map
      fun (shardID, report) => (executorID, shardID, report)
  if reports.any fun (_, _, report) => report.isNone then
    .error (.panic "invalid memory address or nil pointer dereference")
  else
    .ok (Map.ofList (reports.filterMap fun (executorID, shardID, report) =>
      match report with
      | some r => if r.status = .done then some (shardID, ⟨executorID⟩) else none
      | none => none))

/-- The drained shards still assigned to given executors. -/
def findDrainedAssignedShards (state : NamespaceState F) (executors : List String) : List String :=
  let drainedAssigned : KeySet String := Map.ofList ((executors.flatMap fun executorID =>
    (state.assigned executorID).assignedShards.keys.filter state.isShardDrained).map (·, ()))
  drainedAssigned.keys

def makeShards (num : Int) : Except Failure (List String) :=
  if num < 0 then .error (.panic "makeslice: len out of range")
  else .ok ((List.range num.toNat).map toString)

def getShards (order : RangeOrder) (cfg : config.Namespace) (state : NamespaceState F)
    (deletedShards : Map String ShardState) : Except Failure (List String) :=
  match cfg.type with
  | .fixed => makeShards cfg.shardNum
  | .ephemeral =>
    .ok ((order.range "getShards" state.shardAssignments).flatMap fun (executorID, assigned) =>
      (order.rangeKeys s!"getShards/{executorID}" assigned.assignedShards).filter
        fun shardID => decide (shardID ∉ deletedShards))
  | .other _ => .ok []

/-- The variables of `findShardsToReassign`. -/
structure Reassignment where
  allAvailableShards : KeySet String
  shardsToReassign : List String
  currentAssignments : ListMap String String

/-- Every assignable executor starts with an empty list. -/
def Reassignment.start (assignableExecutors allAvailableShards : KeySet String) : Reassignment where
  allAvailableShards := allAvailableShards
  shardsToReassign := []
  currentAssignments := Map.ofList (assignableExecutors.keys.map fun executorID => (executorID, []))

/-- The body of its inner loop: the first executor seen with an available
shard takes it out of the available set. -/
def Reassignment.visit (assignableExecutors : KeySet String) (r : Reassignment)
    (stored : String × String) : Reassignment :=
  let (executorID, shardID) := stored
  if shardID ∈ r.allAvailableShards then
    if executorID ∈ assignableExecutors then
      { r with allAvailableShards := r.allAvailableShards.erase shardID
               currentAssignments := ListMap.push r.currentAssignments executorID shardID }
    else
      { r with allAvailableShards := r.allAvailableShards.erase shardID
               shardsToReassign := r.shardsToReassign ++ [shardID] }
  else r

/-- The stored assignments in the order the nested loops visit them. -/
def storedAssignments (order : RangeOrder) (state : NamespaceState F) : List (String × String) :=
  (order.range "findShardsToReassign" state.shardAssignments).flatMap fun (executorID, assigned) =>
    (order.rangeKeys s!"findShardsToReassign/{executorID}" assigned.assignedShards).map
      fun shardID => (executorID, shardID)

def findShardsToReassign (order : RangeOrder) (cfg : config.Namespace)
    (assignableExecutors : KeySet String) (state : NamespaceState F)
    (deletedShards : Map String ShardState) :
    Except Failure (List String × ListMap String String) := do
  let shards ← getShards order cfg state deletedShards
  let allAvailableShards := Map.ofList
    ((shards.filter fun shardID => !state.isShardDrained shardID).map fun shardID => (shardID, ()))
  let r := (storedAssignments order state).foldl (Reassignment.visit assignableExecutors)
    (.start assignableExecutors allAvailableShards)
  .ok (r.shardsToReassign ++ order.rangeKeys "allAvailableShards" r.allAvailableShards,
    r.currentAssignments)

/-- The executors that are neither assignable nor stale and still have shards. -/
def findExecutorsToUnassign (state : NamespaceState F) (assignableExecutors : KeySet String)
    (staleExecutors : Map String Int) : Map String Int :=
  Map.ofList ((state.shardAssignments.toList.filter fun (executorID, assigned) =>
    assigned.assignedShards.keys.length ≠ 0 ∧ executorID ∉ assignableExecutors ∧
      executorID ∉ staleExecutors).map fun (executorID, assigned) => (executorID, assigned.modRevision))

/-- Round robin over the active executors from a random start. -/
def updateAssignments (randomStart : Nat) (shardsToReassign activeExecutors : List String)
    (currentAssignments : ListMap String String) : Bool × ListMap String String :=
  if shardsToReassign = [] then (false, currentAssignments)
  else
    (true, shardsToReassign.zipIdx.foldl (fun current (shardID, i) =>
      ListMap.push current (activeExecutors.getD ((randomStart + i) % activeExecutors.length) "") shardID)
      currentAssignments)

def applyMove (currentAssignments : ListMap String String) (move : Move) :
    Except Failure (ListMap String String) :=
  let shards := ListMap.index currentAssignments move.fromID
  match shards.idxOf? move.shardID with
  | none => .error (.error ("shard " ++ move.shardID ++ " not found in source executor " ++ move.fromID))
  | some idx => .ok (ListMap.push (currentAssignments.insert move.fromID (swapRemove shards idx))
      move.toID move.shardID)

def applyMoves (currentAssignments : ListMap String String) (moves : List Move) :
    Except Failure (ListMap String String) :=
  moves.foldlM applyMove currentAssignments

/-- Moves the first shard of the next donor to an empty executor. -/
def stealShard (executorsWithShards : List String) (currentAssignments : ListMap String String)
    (round : String × Nat) : Except Failure (ListMap String String) :=
  let (emptyExecutor, stealRound) := round
  let executorToStealFrom := executorsWithShards.getD (stealRound % executorsWithShards.length) ""
  match ListMap.index currentAssignments executorToStealFrom with
  | [] => .error (.panic "index out of range [0] with length 0")
  | stolenShard :: rest =>
    .ok (ListMap.push (currentAssignments.insert executorToStealFrom rest) emptyExecutor stolenShard)

def assignShardsToEmptyExecutors (currentAssignments : ListMap String String) :
    Except Failure (Bool × ListMap String String) :=
  let executors := currentAssignments.keys.insertionSort (· ≤ ·)
  let count executorID := (ListMap.index currentAssignments executorID).length
  let emptyExecutors := executors.filter fun executorID => count executorID = 0
  let executorsWithShards := executors.filter fun executorID => count executorID ≠ 0
  let minShardsCurrentlyAssigned := executorsWithShards.foldl (fun least executorID =>
    if least = 0 ∨ count executorID < least then count executorID else least) 0
  if emptyExecutors = [] ∨ executorsWithShards = [] then .ok (false, currentAssignments)
  else
    let numShards := minShardsCurrentlyAssigned * executorsWithShards.length / currentAssignments.keys.length
    let rounds := (List.replicate numShards emptyExecutors).flatten.zipIdx
    do
      let current ← rounds.foldlM (stealShard executorsWithShards) currentAssignments
      .ok (true, current)

/-- What the code does not determine itself: the visiting order of maps, the
random start of the round robin and the readings of the clock. -/
structure Choices where
  order : RangeOrder
  randomStart : Nat
  now : Time
  planTime : Time
  assignmentTime : Time

structure Config (F : Type) where
  namespaceCfg : config.Namespace
  heartbeatTTL : Duration
  loadBalancing : loadbalancer.Config F

/-- The planning variables of a rebalance once the moves are applied. -/
structure Planned where
  deletedShards : Map String ShardState
  shardsToReassign : List String
  /-- The assignments as `findShardsToReassign` returned them. -/
  keptAssignments : ListMap String String
  executorsToUnassign : Map String Int
  drainedAssignedShards : List String
  assignedToEmptyExecutors : Bool
  updatedAssignments : Bool
  loadBalanceMoves : List Move
  currentAssignments : ListMap String String

variable [Float64 F]

/-- The planning part of `rebalanceShardsImpl`, for the executors found active. -/
def planAssignments (choices : Choices) (cfg : Config F) (state : NamespaceState F)
    (staleExecutors : Map String Int) (activeExecutors : List String) : Except Failure Planned := do
  let deletedShards ← findDeletedShards choices.order state
  let assignableExecutors := Map.ofList (activeExecutors.map fun executorID => (executorID, ()))
  let (shardsToReassign, keptAssignments) ←
    findShardsToReassign choices.order cfg.namespaceCfg assignableExecutors state deletedShards
  let executorsToUnassign := findExecutorsToUnassign state assignableExecutors staleExecutors
  let drainedAssignedShards := findDrainedAssignedShards state activeExecutors
  let (assignedToEmptyExecutors, currentAssignments) ← assignShardsToEmptyExecutors keptAssignments
  let (updatedAssignments, currentAssignments) :=
    updateAssignments choices.randomStart shardsToReassign activeExecutors currentAssignments
  let loadBalanceMoves ← (loadbalancer.planRebalance choices.order cfg.loadBalancing state
    currentAssignments choices.planTime).mapError (Failure.wrap "load balance")
  let currentAssignments ← (applyMoves currentAssignments loadBalanceMoves).mapError
    (Failure.wrap "apply load balance moves")
  .ok {
    deletedShards, shardsToReassign, keptAssignments, executorsToUnassign, drainedAssignedShards,
    assignedToEmptyExecutors, updatedAssignments, loadBalanceMoves, currentAssignments }

end process
