import ShardManager.LoadBalancer.Naive

open golang golang.Float64 store plan

namespace greedy

variable {F : Type} [Float64 F]

/-- The load-balancing settings of one namespace. -/
structure Config (F : Type) where
  perShardCooldown : Duration
  moveBudgetProportion : F
  hysteresisUpperBand : F
  hysteresisLowerBand : F
  severeImbalanceRatio : F

section Load

def hasSmoothedLoadUpdate (stats : ShardStatistics F) : Bool := !stats.lastUpdateTime.isZero

def measuredShardLoad (shardStats : Map String (ShardStatistics F)) (shardID : String) : Option F :=
  match shardStats.lookup shardID with
  | some stats => if hasSmoothedLoadUpdate stats then some stats.smoothedLoad else none
  | none => none

/-- The average smoothed load of the assigned shards with a load report. -/
def averageMeasuredShardLoad (order : RangeOrder) (assignments : ListMap String String)
    (shardStats : Map String (ShardStatistics F)) : F :=
  let measured := (order.range "averageMeasuredShardLoad" assignments).flatMap fun (_, shards) =>
    shards.filterMap (measuredShardLoad shardStats)
  if measured.length = 0 then zero
  else div (measured.foldl add zero) (ofInt measured.length)

def effectiveShardLoad (shardStats : Map String (ShardStatistics F)) (averageMeasured : F)
    (shardID : String) : F :=
  (measuredShardLoad shardStats shardID).getD averageMeasured

end Load

section Placement

structure ExecutorLoad (F : Type) where
  shardCount : Nat
  smoothedLoad : F

def activeExecutorAssignments (order : RangeOrder) (state : NamespaceState F) : ListMap String String :=
  Map.ofList ((state.assignableExecutorIDs ∅).map fun executorID =>
    (executorID, order.rangeKeys s!"activeExecutorAssignments/{executorID}"
      (state.assigned executorID).assignedShards))

def executorLoads (order : RangeOrder) (state : NamespaceState F) : Map String (ExecutorLoad F) × F :=
  let activeAssignments := activeExecutorAssignments order state
  let averageMeasured := averageMeasuredShardLoad order activeAssignments state.shardStats
  let loads := Map.ofList ((order.range "executorLoads" activeAssignments).map fun (executorID, shards) =>
    (executorID, {
      shardCount := shards.length
      smoothedLoad := shards.foldl
        (fun sum shardID => add sum (effectiveShardLoad state.shardStats averageMeasured shardID)) zero }))
  (loads, averageMeasured)

def chooseExecutorAndUpdateLoads (order : RangeOrder) (averageShardLoad : F)
    (loads : Map String (ExecutorLoad F)) : Except Failure (String × Map String (ExecutorLoad F)) :=
  match order.rangeKeys "chooseExecutor" loads with
  | [] => .error errNoActiveExecutors
  | first :: rest =>
    let load executorID := (loads.lookup executorID).getD ⟨0, zero⟩
    let less a b :=
      match compare (load a).smoothedLoad (load b).smoothedLoad with
      | .lt => true
      | .gt => false
      | .eq => decide ((load a).shardCount < (load b).shardCount ∨
          (load a).shardCount = (load b).shardCount ∧ a < b)
    let chosen := minFunc less first rest
    .ok (chosen, loads.insert chosen
      ⟨(load chosen).shardCount + 1, add (load chosen).smoothedLoad averageShardLoad⟩)

def planInitialPlacement (order : RangeOrder) (state : NamespaceState F) (shardIDs : List String) :
    Except Failure (List Placement) :=
  let (loads, averageShardLoad) := executorLoads order state
  placeEach (fun shardID => chooseExecutorAndUpdateLoads (order.within shardID) averageShardLoad)
    loads shardIDs

end Placement

section Rebalance

def minShardSmoothedLoadForMove : F := ofRat (1 / 100)

structure MoveCandidate (F : Type) where
  shardID : String
  smoothedLoad : F
  fromID : String
  toID : String
  assignmentIndex : Nat

def loadOf (loads : Map String F) (executorID : String) : F := (loads.lookup executorID).getD zero

/-- The load of every executor and their mean. -/
def computeExecutorLoads (order : RangeOrder) (assignments : ListMap String String)
    (state : NamespaceState F) : Option (Map String F × F) :=
  if assignments.keys.length = 0 then none
  else
    let averageMeasured := averageMeasuredShardLoad order assignments state.shardStats
    let load := effectiveShardLoad state.shardStats averageMeasured
    let visited := order.range "computeExecutorLoads" assignments
    let loads := Map.ofList (visited.map fun (executorID, shards) =>
      (executorID, shards.foldl (fun sum shardID => add sum (load shardID)) zero))
    let total := (visited.flatMap Prod.snd).foldl (fun sum shardID => add sum (load shardID)) zero
    some (loads, div total (ofInt assignments.keys.length))

def computeMoveBudget (totalShards : Nat) (proportion : F) : Int :=
  if totalShards = 0 ∨ le proportion zero then 0
  else ceilInt (mul proportion (ofInt totalShards))

def isAssignable (state : NamespaceState F) (executorID : String) : Bool :=
  match state.executor executorID with
  | some executor => executor.isAssignable ∅
  | none => false

def classifySourcesAndDestinations (order : RangeOrder) (cfg : Config F) (state : NamespaceState F)
    (loads : Map String F) (meanLoad : F) : List String × List String :=
  let visited := order.range "classifySourcesAndDestinations" loads
  let isSource := fun (load : F) => lt (mul meanLoad cfg.hysteresisUpperBand) load
  let sources := visited.filter fun (_, load) => isSource load
  let destinations := visited.filter fun (executorID, load) =>
    !isSource load && lt load (mul meanLoad cfg.hysteresisLowerBand) && isAssignable state executorID
  (sources.map Prod.fst, destinations.map Prod.fst)

def isSevereImbalance (order : RangeOrder) (loads : Map String F) (meanLoad ratio : F) : Bool :=
  if le meanLoad zero || le ratio zero then false
  else
    let maxLoad := (order.range "isSevereImbalance" loads).foldl
      (fun maxLoad (_, load) => if lt maxLoad load then load else maxLoad) zero
    le ratio (div maxLoad meanLoad)

/-- The first executor of least load. -/
def findBestDestination (destinationExecutors : List String) (loads : Map String F) : Option String :=
  match destinationExecutors with
  | [] => none
  | first :: rest => some (minFunc (fun a b => lt (loadOf loads a) (loadOf loads b)) first rest)

def selectDestinationExecutor (order : RangeOrder) (cfg : Config F) (state : NamespaceState F)
    (destinationExecutors : List String) (workingAssignments : ListMap String String)
    (loads : Map String F) (meanLoad : F) : Option String :=
  if destinationExecutors = [] then
    -- Only a severe imbalance makes every assignable executor a destination.
    if isSevereImbalance order loads meanLoad cfg.severeImbalanceRatio then
      findBestDestination ((order.rangeKeys "selectDestinationExecutor" workingAssignments).filter
        (isAssignable state)) loads
    else none
  else findBestDestination destinationExecutors loads

/-- The reduction in squared executor load. -/
def computeBenefitOfMove (sourceLoad destLoad shardLoad : F) : F :=
  let squaredLoadBeforeMove := add (mul sourceLoad sourceLoad) (mul destLoad destLoad)
  let afterSourceLoad := sub sourceLoad shardLoad
  let afterDestLoad := add destLoad shardLoad
  sub squaredLoadBeforeMove (add (mul afterSourceLoad afterSourceLoad) (mul afterDestLoad afterDestLoad))

/-- The load of a shard that may be moved now. -/
def movableLoad (cfg : Config F) (shardStats : Map String (ShardStatistics F))
    (movedShards : KeySet String) (now : Time) (shardID : String) : Option F :=
  if shardID ∈ movedShards then none
  else match shardStats.lookup shardID with
  | none => none
  | some stats =>
    if !hasSmoothedLoadUpdate stats then none
    else if 0 < cfg.perShardCooldown ∧ !stats.lastMoveTime.isZero ∧
        now.sub stats.lastMoveTime < cfg.perShardCooldown then none
    else if lt stats.smoothedLoad minShardSmoothedLoadForMove then none
    else some stats.smoothedLoad

/-- One iteration of the search for the most beneficial shard. -/
def betterCandidate (cfg : Config F) (shardStats : Map String (ShardStatistics F))
    (source destination : String) (loads : Map String F) (movedShards : KeySet String) (now : Time)
    (best : MoveCandidate F × F) (entry : String × Nat) : MoveCandidate F × F :=
  match movableLoad cfg shardStats movedShards now entry.1 with
  | none => best
  | some load =>
    let benefit := computeBenefitOfMove (loadOf loads source) (loadOf loads destination) load
    if le benefit zero then best
    else if lt best.2 benefit then (⟨entry.1, load, source, destination, entry.2⟩, benefit)
    else best

def findBestShardForMove (cfg : Config F) (assignments : ListMap String String)
    (shardStats : Map String (ShardStatistics F)) (source destination : String)
    (loads : Map String F) (movedShards : KeySet String) (now : Time) : Option (MoveCandidate F) :=
  let best := (ListMap.index assignments source).zipIdx.foldl
    (betterCandidate cfg shardStats source destination loads movedShards now)
    (⟨"", zero, "", "", 0⟩, zero)
  if best.1.shardID ≠ "" then some best.1 else none

/-- `slices.SortFunc` is not stable, so executors of equal load end up in an
order of its choosing. -/
def sortByDescendingLoad (order : RangeOrder) (loads : Map String F) (executors : List String) :
    List String :=
  (order.visit "sortByDescendingLoad" executors).insertionSort
    (fun a b => compare (loadOf loads b) (loadOf loads a) ≠ .gt)

def findNextMoveCandidate (order : RangeOrder) (cfg : Config F) (sourceExecutors : List String)
    (destinationExecutor : String) (workingAssignments : ListMap String String)
    (shardStats : Map String (ShardStatistics F)) (loads : Map String F)
    (movedShards : KeySet String) (now : Time) : Option (MoveCandidate F) :=
  (sortByDescendingLoad order loads sourceExecutors).findSome? fun sourceExecutor =>
    if sourceExecutor = destinationExecutor then none
    else findBestShardForMove cfg workingAssignments shardStats sourceExecutor destinationExecutor
      loads movedShards now

def applyMoveCandidate (assignments : ListMap String String) (candidate : MoveCandidate F) :
    Except Failure (ListMap String String) :=
  match (ListMap.index assignments candidate.fromID)[candidate.assignmentIndex]? with
  | none => .error (.error
      ("candidate assignment index out of range for shard " ++ candidate.shardID ++
        " on source executor " ++ candidate.fromID))
  | some shardID =>
    if shardID ≠ candidate.shardID then .error (.error
      ("candidate assignment index mismatch for shard " ++ candidate.shardID ++
        " on source executor " ++ candidate.fromID))
    else .ok (ListMap.push (assignments.insert candidate.fromID
      (swapRemove (ListMap.index assignments candidate.fromID) candidate.assignmentIndex))
      candidate.toID candidate.shardID)

def updateExecutorLoadsAfterMove (source destination : String) (loads : Map String F) (shardLoad : F) :
    Map String F :=
  let loads := loads.insert source (sub (loadOf loads source) shardLoad)
  loads.insert destination (add (loadOf loads destination) shardLoad)

/-- What one pass of the planning loop updates in place. -/
structure Working (F : Type) where
  assignments : ListMap String String
  loads : Map String F
  movedShards : KeySet String

/-- One beneficial move, or nothing when no eligible move is available. -/
def planAndApplyNextMove (order : RangeOrder) (cfg : Config F) (state : NamespaceState F)
    (meanLoad : F) (now : Time) (w : Working F) :
    Except Failure (Option (MoveCandidate F × Working F)) :=
  let (sourceExecutors, destinationExecutors) :=
    classifySourcesAndDestinations order cfg state w.loads meanLoad
  if sourceExecutors = [] then .ok none
  else
    match selectDestinationExecutor order cfg state destinationExecutors w.assignments w.loads meanLoad with
    | none => .ok none
    | some destinationExecutor =>
      match findNextMoveCandidate order cfg sourceExecutors destinationExecutor w.assignments
          state.shardStats w.loads w.movedShards now with
      | none => .ok none
      | some candidate => do
        let assignments ← applyMoveCandidate w.assignments candidate
        .ok (some (candidate, {
          assignments := assignments
          loads := updateExecutorLoadsAfterMove candidate.fromID candidate.toID w.loads candidate.smoothedLoad
          movedShards := w.movedShards.insert candidate.shardID () }))

/-- Repeats while the move budget lasts. -/
def planMoves (order : RangeOrder) (cfg : Config F) (state : NamespaceState F) (meanLoad : F)
    (now : Time) : Nat → Working F → Except Failure (List Move)
  | 0, _ => .ok []
  | budget + 1, w => do
    match ← planAndApplyNextMove (order.within (toString budget)) cfg state meanLoad now w with
    | none => .ok []
    | some (candidate, w) =>
      let moves ← planMoves order cfg state meanLoad now budget w
      .ok (⟨candidate.shardID, candidate.fromID, candidate.toID⟩ :: moves)

/-- The size of a `plan.Move`, which is three strings. -/
def moveSize : Int := 48

def planRebalance (order : RangeOrder) (cfg : Config F) (state : NamespaceState F)
    (currentAssignments : ListMap String String) (now : Time) : Except Failure (List Move) :=
  match computeExecutorLoads order currentAssignments state with
  | none => .ok []
  | some (loads, meanLoad) =>
    let totalShards := (ListMap.elements currentAssignments).length
    let moveBudget := computeMoveBudget totalShards cfg.moveBudgetProportion
    if moveBudget ≤ 0 then .ok []
    else do
      makeslice moveSize moveBudget
      planMoves order cfg state meanLoad now moveBudget.toNat ⟨currentAssignments, loads, ∅⟩

end Rebalance

section PlacementSpec

theorem chooseExecutorAndUpdateLoads_ok {order : RangeOrder} {average : F}
    {loads loads' : Map String (ExecutorLoad F)} {chosen : String}
    (h : chooseExecutorAndUpdateLoads order average loads = .ok (chosen, loads')) :
    chosen ∈ loads ∧ ∀ executorID, executorID ∈ loads' ↔ executorID ∈ loads := by
  unfold chooseExecutorAndUpdateLoads at h
  split at h
  · cases h
  · rename_i first rest hkeys
    simp only [Except.ok.injEq, Prod.mk.injEq] at h
    obtain ⟨hchosen, rfl⟩ := h
    have hchosen_mem : chosen ∈ order.rangeKeys "chooseExecutor" loads := by
      rw [hkeys, ← hchosen]
      exact minFunc_mem _ first rest
    have hmem := RangeOrder.mem_rangeKeys.mp hchosen_mem
    rw [hchosen]
    exact ⟨hmem, fun _ => Map.mem_insert_iff_of_mem hmem⟩

theorem mem_executorLoads {order : RangeOrder} {state : NamespaceState F} {executorID : String} :
    executorID ∈ (executorLoads order state).1 ↔ state.Assignable ∅ executorID := by
  have hactive : executorID ∈ activeExecutorAssignments order state ↔ state.Assignable ∅ executorID := by
    rw [activeExecutorAssignments, Map.mem_ofList, ← NamespaceState.mem_assignableExecutorIDs]
    simp
  rw [executorLoads, Map.mem_ofList, List.map_map, ← hactive]
  exact RangeOrder.mem_rangeKeys

theorem planInitialPlacement_ok {order : RangeOrder} {state : NamespaceState F} {shardIDs : List String}
    {placements : List Placement} (h : planInitialPlacement order state shardIDs = .ok placements) :
    placements.map Placement.shardID = shardIDs ∧ ∀ p ∈ placements, state.Assignable ∅ p.executorID := by
  obtain ⟨hshards, hmem⟩ :=
    placeEach_ok (fun loads e => e ∈ loads) chooseExecutorAndUpdateLoads_ok h
  exact ⟨hshards, fun p hp => mem_executorLoads.mp (hmem p hp)⟩

end PlacementSpec

section RebalanceSpec

/-- The executors of a planning pass: both of its maps have the same keys. -/
structure Working.Covers (w : Working F) (executors : String → Prop) : Prop where
  assignments : ∀ executorID, executorID ∈ w.assignments ↔ executors executorID
  loads : ∀ executorID, executorID ∈ w.loads ↔ executors executorID

/-- What the search for a move makes sure of. -/
structure Selected (cfg : Config F) (state : NamespaceState F) (now : Time) (w : Working F)
    (candidate : MoveCandidate F) : Prop where
  source : candidate.fromID ∈ w.loads
  destination : candidate.toID ∈ w.loads ∨ candidate.toID ∈ w.assignments
  ne : candidate.fromID ≠ candidate.toID
  assignable : isAssignable state candidate.toID = true
  index : (ListMap.index w.assignments candidate.fromID)[candidate.assignmentIndex]? = some candidate.shardID
  movable : movableLoad cfg state.shardStats w.movedShards now candidate.shardID = some candidate.smoothedLoad
  beneficial : le (computeBenefitOfMove (loadOf w.loads candidate.fromID) (loadOf w.loads candidate.toID)
    candidate.smoothedLoad) zero = false

/-- The working state after a move. -/
def Working.move (w : Working F) (candidate : MoveCandidate F) : Working F where
  assignments := ListMap.push (w.assignments.insert candidate.fromID
    (swapRemove (ListMap.index w.assignments candidate.fromID) candidate.assignmentIndex))
    candidate.toID candidate.shardID
  loads := updateExecutorLoadsAfterMove candidate.fromID candidate.toID w.loads candidate.smoothedLoad
  movedShards := w.movedShards.insert candidate.shardID ()

theorem source_mem {order : RangeOrder} {cfg : Config F} {state : NamespaceState F} {loads : Map String F}
    {meanLoad : F} {executorID : String}
    (h : executorID ∈ (classifySourcesAndDestinations order cfg state loads meanLoad).1) : executorID ∈ loads := by
  obtain ⟨entry, hentry, rfl⟩ := List.mem_map.mp h
  exact RangeOrder.mem_rangeKeys.mp (List.mem_map_of_mem (List.mem_filter.mp hentry).1)

theorem destination_mem {order : RangeOrder} {cfg : Config F} {state : NamespaceState F} {loads : Map String F}
    {meanLoad : F} {executorID : String}
    (h : executorID ∈ (classifySourcesAndDestinations order cfg state loads meanLoad).2) :
    executorID ∈ loads ∧ isAssignable state executorID = true := by
  obtain ⟨entry, hentry, rfl⟩ := List.mem_map.mp h
  obtain ⟨hmem, hdestination⟩ := List.mem_filter.mp hentry
  exact ⟨RangeOrder.mem_rangeKeys.mp (List.mem_map_of_mem hmem), (Bool.and_eq_true_iff.mp hdestination).2⟩

theorem findBestDestination_mem {executors : List String} {loads : Map String F} {executorID : String}
    (h : findBestDestination executors loads = some executorID) : executorID ∈ executors := by
  unfold findBestDestination at h
  split at h
  · cases h
  · cases h
    exact minFunc_mem _ _ _

theorem selectDestinationExecutor_mem {order : RangeOrder} {cfg : Config F} {state : NamespaceState F}
    {assignments : ListMap String String} {loads : Map String F} {destinations : List String} {meanLoad : F}
    {executorID : String}
    (h : selectDestinationExecutor order cfg state destinations assignments loads meanLoad = some executorID) :
    executorID ∈ destinations ∨ executorID ∈ assignments ∧ isAssignable state executorID = true := by
  unfold selectDestinationExecutor at h
  split at h
  · split at h
    · obtain ⟨hmem, hassignable⟩ := List.mem_filter.mp (findBestDestination_mem h)
      exact .inr ⟨RangeOrder.mem_rangeKeys.mp hmem, hassignable⟩
    · cases h
  · exact .inl (findBestDestination_mem h)

theorem findBestShardForMove_spec {cfg : Config F} {assignments : ListMap String String}
    {shardStats : Map String (ShardStatistics F)} {source destination : String} {loads : Map String F}
    {movedShards : KeySet String} {now : Time} {candidate : MoveCandidate F}
    (h : findBestShardForMove cfg assignments shardStats source destination loads movedShards now =
      some candidate) :
    candidate.fromID = source ∧ candidate.toID = destination ∧
      (ListMap.index assignments source)[candidate.assignmentIndex]? = some candidate.shardID ∧
      movableLoad cfg shardStats movedShards now candidate.shardID = some candidate.smoothedLoad ∧
      le (computeBenefitOfMove (loadOf loads source) (loadOf loads destination) candidate.smoothedLoad) zero =
        false := by
  unfold findBestShardForMove at h
  dsimp only at h
  split at h
  · rename_i hne
    cases h
    -- Every update of the best candidate sets all of it.
    refine Or.resolve_left (List.foldlRecOn (motive := fun best : MoveCandidate F × F =>
      best.1.shardID = "" ∨ best.1.fromID = source ∧ best.1.toID = destination ∧
        (ListMap.index assignments source)[best.1.assignmentIndex]? = some best.1.shardID ∧
        movableLoad cfg shardStats movedShards now best.1.shardID = some best.1.smoothedLoad ∧
        le (computeBenefitOfMove (loadOf loads source) (loadOf loads destination) best.1.smoothedLoad) zero = false)
      _ _ (.inl rfl) ?_) hne
    intro best hbest entry hentry
    unfold betterCandidate
    split
    · exact hbest
    · rename_i load hload
      dsimp only
      split_ifs with hbenefit
      · exact hbest
      · exact .inr ⟨rfl, rfl, List.mem_zipIdx_iff_getElem?.mp hentry, hload, Bool.eq_false_iff.mpr hbenefit⟩
      · exact hbest
  · cases h

/-- Everything an iteration of the planning loop can do: stop, or apply the
move that the search has selected. -/
theorem planAndApplyNextMove_cases (order : RangeOrder) (cfg : Config F) (state : NamespaceState F) (meanLoad : F)
    (now : Time) (w : Working F) :
    planAndApplyNextMove order cfg state meanLoad now w = .ok none ∨
      ∃ candidate, Selected cfg state now w candidate ∧
        planAndApplyNextMove order cfg state meanLoad now w = .ok (some (candidate, w.move candidate)) := by
  unfold planAndApplyNextMove
  dsimp only
  split
  · exact .inl rfl
  split
  · exact .inl rfl
  rename_i destination hdestination
  split
  · exact .inl rfl
  rename_i candidate hcandidate
  obtain ⟨source, hsource, hsearch⟩ := List.exists_of_findSome?_eq_some hcandidate
  split at hsearch
  · cases hsearch
  rename_i hne
  obtain ⟨rfl, rfl, hindex, hmovable, hbeneficial⟩ := findBestShardForMove_spec hsearch
  have hfrom : candidate.fromID ∈ w.loads :=
    source_mem ((order.visit_perm _ _).mem_iff.mp ((List.perm_insertionSort _ _).mem_iff.mp hsource))
  have hto : (candidate.toID ∈ w.loads ∨ candidate.toID ∈ w.assignments) ∧
      isAssignable state candidate.toID = true := by
    rcases selectDestinationExecutor_mem hdestination with hmem | ⟨hmem, hassignable⟩
    · exact ⟨.inl (destination_mem hmem).1, (destination_mem hmem).2⟩
    · exact ⟨.inr hmem, hassignable⟩
  refine .inr ⟨candidate, ⟨hfrom, hto.1, hne, hto.2, hindex, hmovable, hbeneficial⟩, ?_⟩
  have happly : applyMoveCandidate w.assignments candidate = .ok (w.move candidate).assignments := by
    rw [applyMoveCandidate, hindex]
    exact if_neg fun h => h rfl
  rw [happly]
  rfl

theorem Selected.covers {cfg : Config F} {state : NamespaceState F} {now : Time} {w : Working F}
    {candidate : MoveCandidate F} {executors : String → Prop} (h : Selected cfg state now w candidate)
    (hw : w.Covers executors) : executors candidate.fromID ∧ executors candidate.toID := by
  refine ⟨(hw.loads _).mp h.source, ?_⟩
  rcases h.destination with hto | hto
  · exact (hw.loads _).mp hto
  · exact (hw.assignments _).mp hto

/-- A move between two executors keeps the executors. -/
theorem Working.Covers.move {w : Working F} {executors : String → Prop} (hw : w.Covers executors)
    {candidate : MoveCandidate F} (hfrom : executors candidate.fromID) (hto : executors candidate.toID) :
    (w.move candidate).Covers executors where
  assignments := by
    intro executorID
    have hfrom' := (hw.assignments _).mpr hfrom
    rw [Working.move, ListMap.push, Map.mem_insert_iff_of_mem, Map.mem_insert_iff_of_mem hfrom']
    · exact hw.assignments executorID
    · rw [Map.mem_insert_iff_of_mem hfrom']
      exact (hw.assignments _).mpr hto
  loads := by
    intro executorID
    have hfrom' := (hw.loads _).mpr hfrom
    rw [Working.move, updateExecutorLoadsAfterMove, Map.mem_insert_iff_of_mem, Map.mem_insert_iff_of_mem hfrom']
    · exact hw.loads executorID
    · rw [Map.mem_insert_iff_of_mem hfrom']
      exact (hw.loads _).mpr hto

theorem planMoves_toID {order : RangeOrder} {cfg : Config F} {state : NamespaceState F} {meanLoad : F}
    {now : Time} {budget : Nat} {w : Working F} (executors : String → Prop) (hw : w.Covers executors)
    {moves : List Move} (h : planMoves order cfg state meanLoad now budget w = .ok moves) :
    ∀ move ∈ moves, executors move.toID := by
  induction budget generalizing w moves with
  | zero =>
    cases h
    simp
  | succ budget ih =>
    obtain ⟨next, hnext, h⟩ := bind_eq_ok_iff.mp h
    cases next with
    | none =>
      cases h
      simp
    | some next =>
      rcases planAndApplyNextMove_cases (order.within (toString budget)) cfg state meanLoad now w with
        hnone | ⟨candidate, hselected, hsome⟩
      · rw [hnone] at hnext
        cases hnext
      · rw [hsome] at hnext
        cases hnext
        obtain ⟨hfrom, hto⟩ := hselected.covers hw
        obtain ⟨rest, hrest, h⟩ := bind_eq_ok_iff.mp h
        cases h
        intro move hmove
        rcases List.mem_cons.mp hmove with rfl | hmove
        · exact hto
        · exact ih (hw.move hfrom hto) hrest move hmove

theorem mem_computeExecutorLoads {order : RangeOrder} {state : NamespaceState F} {assignments : ListMap String String}
    {loads : Map String F} {meanLoad : F} (h : computeExecutorLoads order assignments state = some (loads, meanLoad))
    {executorID : String} : executorID ∈ loads ↔ executorID ∈ assignments := by
  unfold computeExecutorLoads at h
  split at h
  · cases h
  · simp only [Option.some.injEq, Prod.mk.injEq] at h
    rw [← h.1, Map.mem_ofList, List.map_map]
    exact RangeOrder.mem_rangeKeys

/-- A move always goes to an executor of the assignments. -/
theorem planRebalance_toID {order : RangeOrder} {cfg : Config F} {state : NamespaceState F}
    {assignments : ListMap String String} {now : Time} {moves : List Move}
    (h : planRebalance order cfg state assignments now = .ok moves) :
    ∀ move ∈ moves, move.toID ∈ assignments := by
  unfold planRebalance at h
  split at h
  · cases h
    simp
  · rename_i loads meanLoad hloads
    dsimp only at h
    split at h
    · cases h
      simp
    · obtain ⟨-, -, h⟩ := bind_eq_ok_iff.mp h
      exact planMoves_toID (· ∈ assignments) ⟨fun _ => Iff.rfl, fun _ => mem_computeExecutorLoads hloads⟩ h

end RebalanceSpec

end greedy
