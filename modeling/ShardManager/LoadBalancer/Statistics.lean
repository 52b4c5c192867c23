import ShardManager.LoadBalancer.Dispatch

open golang golang.Float64 store types

namespace golang

/-- `math.Exp`, of which nothing is assumed. -/
class ExpFloat64 (F : Type) where
  exp : F → F

/-- A Taylor polynomial stands in for the exponential in exact arithmetic. -/
instance : ExpFloat64 ExactFloat where
  exp
    | .finite q => ExactFloat.ofRat (1 + q.val * (1 + q.val / 2 * (1 + q.val / 3 * (1 + q.val / 4))))
    | .negInf => ExactFloat.ofRat 0
    | x => x

namespace Time

def second : Duration := 10 ^ 9

def minute : Duration := 60 * second

/-- `d.Seconds()`, truncated division for the whole seconds. -/
def seconds {F : Type} [Float64 F] (d : Duration) : F :=
  add (ofInt (d.tdiv second)) (div (ofInt (d.tmod second)) (ofRat (10 ^ 9)))

end Time

end golang

namespace statistics

variable {F : Type} [Float64 F] [ExpFloat64 F]

def defaultLoadSmoothingTimeConstant : Duration := Time.minute

omit [ExpFloat64 F] in
/-- `%f` of a value that is not finite. -/
def formatNonFinite (x : F) : String :=
  if isNaN x then "NaN" else if lt zero x then "+Inf" else "-Inf"

/-- Exponential smoothing. Without a usable earlier measurement the current
load is taken as it is. -/
def calculateSmoothedLoad (prev current : F) (lastUpdate now : Time) (smoothingTimeConstant : Duration) :
    Except String F :=
  if !isFinite current then .error ("current load is NaN or Inf: " ++ formatNonFinite current)
  else if !isFinite prev then .error ("previous load is NaN or Inf: " ++ formatNonFinite prev)
  else if lastUpdate.isZero || decide (smoothingTimeConstant ≤ 0) then .ok current
  else if now < lastUpdate then .ok current
  else
    let dt := now.sub lastUpdate
    let alpha := sub (ofRat 1)
      (ExpFloat64.exp (div (sub zero (Time.seconds dt)) (Time.seconds smoothingTimeConstant)))
    .ok (add (mul (sub (ofRat 1) alpha) prev) (mul alpha current))

end statistics

namespace store

variable {F : Type}

/-- A statistics update of one executor: the complete map to store. -/
structure ExecutorShardStatistics (F : Type) where
  executorID : String
  statistics : Map String (ShardStatistics F)

/-- The zero value. -/
def ShardStatistics.zero [Float64 F] : ShardStatistics F := ⟨Float64.zero, 0, 0⟩

end store

namespace greedy

variable {F : Type} [Float64 F]

section Heartbeat

variable [ExpFloat64 F]

def updateShardStatistic (shardLoad : F) (previous : ShardStatistics F) (now : Time)
    (smoothingTimeConstant : Duration) : Except String (ShardStatistics F) := do
  let newSmoothed ← statistics.calculateSmoothedLoad previous.smoothedLoad shardLoad previous.lastUpdateTime now
    smoothingTimeConstant
  .ok { smoothedLoad := newSmoothed, lastUpdateTime := now, lastMoveTime := previous.lastMoveTime }

/-- A nil property falls back to the default. -/
def loadSmoothingTimeConstant (property : Option Duration) : Duration :=
  property.getD statistics.defaultLoadSmoothingTimeConstant

/-- The reports that update statistics: assigned, not nil and with a usable load. -/
def statisticsUpdates (order : RangeOrder) (smoothingTimeConstant : Duration)
    (reportedShards : Map String (Option (ShardStatusReport F))) (assignedState : AssignedState)
    (previousStats : Map String (ShardStatistics F)) (now : Time) : List (String × ShardStatistics F) :=
  (order.range "PrepareShardStatistics" reportedShards).filterMap fun (shardID, report) =>
    match report with
    | none => none
    | some report =>
      if shardID ∈ assignedState.assignedShards then
        match updateShardStatistic report.shardLoad ((previousStats.lookup shardID).getD .zero) now
            smoothingTimeConstant with
        -- Logged and skipped.
        | .error _ => none
        | .ok updatedStatistic => some (shardID, updatedStatistic)
      else none

/-- Filters the reports of a heartbeat against the assignment read with it.
Returns the complete map to store, and whether any report updated it. -/
def prepareShardStatistics (order : RangeOrder) (smoothingTimeConstant : Duration)
    (reportedShards : Map String (Option (ShardStatusReport F))) (assignedState : AssignedState)
    (previousStats : Map String (ShardStatistics F)) (now : Time) : Map String (ShardStatistics F) × Bool :=
  let kept := assignedState.assignedShards.filterMapEntries fun shardID _ => previousStats.lookup shardID
  let updates := statisticsUpdates order smoothingTimeConstant reportedShards assignedState previousStats now
  (updates.foldl (fun updatedStats (shardID, statistic) => updatedStats.insert shardID statistic) kept,
    decide (updates ≠ []))

theorem mem_statisticsUpdates {order : RangeOrder} {smoothingTimeConstant : Duration}
    {reportedShards : Map String (Option (ShardStatusReport F))} {assignedState : AssignedState}
    {previousStats : Map String (ShardStatistics F)} {now : Time} {entry : String × ShardStatistics F}
    (h : entry ∈ statisticsUpdates order smoothingTimeConstant reportedShards assignedState previousStats now) :
    entry.2.lastUpdateTime = now := by
  obtain ⟨⟨shardID, report⟩, -, hentry⟩ := List.mem_filterMap.mp h
  cases report with
  | none => cases hentry
  | some report =>
    dsimp only at hentry
    split at hentry
    · split at hentry
      · cases hentry
      · rename_i updatedStatistic hupdate
        cases hentry
        obtain ⟨newSmoothed, -, hok⟩ := bind_eq_ok_iff.mp hupdate
        cases hok
        rfl
    · cases hentry

/-- Statistics of assigned shards are carried over or updated now. -/
theorem lookup_prepareShardStatistics {order : RangeOrder} {smoothingTimeConstant : Duration}
    {reportedShards : Map String (Option (ShardStatusReport F))} {assignedState : AssignedState}
    {previousStats : Map String (ShardStatistics F)} {now : Time} {shardID : String} {previous : ShardStatistics F}
    (hassigned : shardID ∈ assignedState.assignedShards) (hprevious : previousStats.lookup shardID = some previous) :
    ∃ statistic, (prepareShardStatistics order smoothingTimeConstant reportedShards assignedState previousStats
        now).1.lookup shardID = some statistic ∧ (statistic = previous ∨ statistic.lastUpdateTime = now) := by
  dsimp only [prepareShardStatistics]
  have hkept : (assignedState.assignedShards.filterMapEntries fun shardID _ =>
      previousStats.lookup shardID).lookup shardID = some previous := by
    obtain ⟨assignment, hlookup⟩ := Map.mem_iff_exists_lookup.mp hassigned
    rw [Map.lookup_filterMapEntries, hlookup]
    exact hprevious
  obtain ⟨statistic, hstatistic⟩ := Map.mem_iff_exists_lookup.mp
    ((Map.mem_foldl_insert (statisticsUpdates order smoothingTimeConstant reportedShards assignedState previousStats
      now) _ shardID).mpr (.inr (Map.mem_iff_exists_lookup.mpr ⟨_, hkept⟩)))
  refine ⟨statistic, hstatistic, ?_⟩
  rcases Map.mem_of_lookup_foldl_insert _ _ hstatistic with hupdate | hsame
  · exact .inr (mem_statisticsUpdates hupdate)
  · rw [hkept] at hsame
    cases hsame
    exact .inl rfl

end Heartbeat

section Assignment

omit [Float64 F] in
/-- The executors that gain a shard, and those that lose one to them. -/
def findAffectedExecutors (previousOwnersByShard : Map String String)
    (newAssignments : Map String AssignedState) : KeySet String :=
  Map.ofList (newAssignments.toList.flatMap fun (newOwnerID, assignedState) =>
    assignedState.assignedShards.keys.flatMap fun shardID =>
      match previousOwnersByShard.lookup shardID with
      | some previousOwnerID =>
        if previousOwnerID = newOwnerID then [] else [(newOwnerID, ()), (previousOwnerID, ())]
      | none => [(newOwnerID, ())])

/-- The statistics of one shard of an affected executor. The zero value stands
for shards without a measurement. -/
def movedStatistics (previousOwnersByShard : Map String String)
    (previousStatistics : Map String (ShardStatistics F)) (now : Time) (executorID shardID : String) :
    ShardStatistics F :=
  let previousOwnerID := previousOwnersByShard.lookup shardID
  let shardStatistics := previousStatistics.lookup shardID
  if previousOwnerID = some executorID then shardStatistics.getD .zero
  else match previousOwnerID, shardStatistics with
    | some _, some shardStatistics => { shardStatistics with lastMoveTime := now }
    | _, _ => .zero

/-- The complete maps of the affected executors. One that lost all its shards
has an empty map. -/
def buildStatisticsUpdates (order : RangeOrder) (affected : KeySet String)
    (previousOwnersByShard : Map String String) (newAssignments : Map String AssignedState)
    (previousStatistics : Map String (ShardStatistics F)) (now : Time) : List (ExecutorShardStatistics F) :=
  (order.rangeKeys "buildStatisticsUpdates" affected).map fun executorID => {
    executorID := executorID
    statistics := ((newAssignments.lookup executorID).getD default).assignedShards.filterMapEntries
      fun shardID _ => some (movedStatistics previousOwnersByShard previousStatistics now executorID shardID) }

def prepareAssignmentStatistics (order : RangeOrder) (previousOwnersByShard : Map String String)
    (newAssignments : Map String AssignedState) (previousStatistics : Map String (ShardStatistics F))
    (now : Time) : List (ExecutorShardStatistics F) :=
  buildStatisticsUpdates order (findAffectedExecutors previousOwnersByShard newAssignments)
    previousOwnersByShard newAssignments previousStatistics now

omit [Float64 F] in
/-- An executor is affected if it gains a shard or loses one to somebody. -/
theorem mem_findAffectedExecutors {previousOwnersByShard : Map String String}
    {newAssignments : Map String AssignedState} {executorID : String} :
    executorID ∈ findAffectedExecutors previousOwnersByShard newAssignments ↔
      ∃ newOwnerID state shardID, newAssignments.lookup newOwnerID = some state ∧ shardID ∈ state.assignedShards ∧
        previousOwnersByShard.lookup shardID ≠ some newOwnerID ∧
        (executorID = newOwnerID ∨ previousOwnersByShard.lookup shardID = some executorID) := by
  rw [findAffectedExecutors, Map.mem_ofList]
  simp only [List.map_flatMap, List.mem_flatMap, Prod.exists, Map.mem_toList_iff, ← AList.mem_keys, exists_and_left]
  refine exists_congr fun newOwnerID => exists_congr fun state => and_congr_right fun _ =>
    exists_congr fun shardID => and_congr_right fun _ => ?_
  cases hprevious : previousOwnersByShard.lookup shardID with
  | none => simp
  | some previousOwnerID =>
    by_cases hsame : previousOwnerID = newOwnerID
    · simp [hsame]
    · simp [hsame, @eq_comm _ previousOwnerID executorID]

theorem mem_buildStatisticsUpdates {order : RangeOrder} {affected : KeySet String}
    {previousOwnersByShard : Map String String} {newAssignments : Map String AssignedState}
    {previousStatistics : Map String (ShardStatistics F)} {now : Time} {update : ExecutorShardStatistics F}
    (h : update ∈ buildStatisticsUpdates order affected previousOwnersByShard newAssignments previousStatistics now) :
    update.executorID ∈ affected ∧ ∀ shardID, update.statistics.lookup shardID =
      (((newAssignments.lookup update.executorID).getD default).assignedShards.lookup shardID).map fun _ =>
        movedStatistics previousOwnersByShard previousStatistics now update.executorID shardID := by
  obtain ⟨executorID, hmem, rfl⟩ := List.mem_map.mp h
  refine ⟨RangeOrder.mem_rangeKeys.mp hmem, fun shardID => ?_⟩
  dsimp only
  rw [Map.lookup_filterMapEntries]
  cases ((newAssignments.lookup executorID).getD default).assignedShards.lookup shardID <;> rfl

end Assignment

end greedy

namespace loadbalancer

variable {F : Type} [Float64 F]

/-- The statistics a heartbeat stores, if the mode keeps statistics. -/
def prepareShardStatistics [ExpFloat64 F] (order : RangeOrder) (mode : Mode) (loadSmoothingTimeConstant : Option Duration)
    (reportedShards : Map String (Option (ShardStatusReport F))) (assignedState : Option AssignedState)
    (previousStats : Map String (ShardStatistics F)) (now : Time) :
    Except Failure (Map String (ShardStatistics F) × Bool) :=
  match mode with
  | .greedy =>
    match assignedState with
    | none => .ok (∅, false)
    | some assignedState =>
      if reportedShards.keys.length = 0 then .ok (∅, false)
      else .ok (greedy.prepareShardStatistics order (greedy.loadSmoothingTimeConstant loadSmoothingTimeConstant)
        reportedShards assignedState previousStats now)
  | .naive => .ok (∅, false)
  | .invalid => .error (unsupportedMode mode)

theorem lookup_of_prepareShardStatistics [ExpFloat64 F] {order : RangeOrder} {mode : Mode}
    {loadSmoothingTimeConstant : Option Duration} {reportedShards : Map String (Option (ShardStatusReport F))}
    {assignedState : AssignedState} {previousStats updatedStats : Map String (ShardStatistics F)} {now : Time}
    (h : prepareShardStatistics order mode loadSmoothingTimeConstant reportedShards (some assignedState)
      previousStats now = .ok (updatedStats, true)) {shardID : String} {previous : ShardStatistics F}
    (hassigned : shardID ∈ assignedState.assignedShards) (hprevious : previousStats.lookup shardID = some previous) :
    ∃ statistic, updatedStats.lookup shardID = some statistic ∧
      (statistic = previous ∨ statistic.lastUpdateTime = now) := by
  unfold prepareShardStatistics at h
  split at h
  · dsimp only at h
    split at h
    · cases h
    · obtain rfl : _ = updatedStats := congrArg Prod.fst (Except.ok.inj h)
      exact greedy.lookup_prepareShardStatistics hassigned hprevious
  · cases h
  · cases h

/-- The statistics updates of an assignment change. -/
def prepareAssignmentStatistics (order : RangeOrder) (mode : Mode) (previousOwnersByShard : Map String String)
    (newAssignments : Map String AssignedState) (previousStatistics : Map String (ShardStatistics F))
    (assignmentTime : Time) : Except Failure (List (ExecutorShardStatistics F)) :=
  match mode with
  | .greedy => .ok (greedy.prepareAssignmentStatistics order previousOwnersByShard newAssignments
      previousStatistics assignmentTime)
  | .naive => .ok []
  | .invalid => .error (unsupportedMode mode)

end loadbalancer
