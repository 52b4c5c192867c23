import ShardManager.Process.Assignments

open golang store plan types

namespace process

variable {F : Type}

def shardSetsEqual (a b : Map String (Option ShardAssignment)) : Bool :=
  decide (a.keys.length = b.keys.length) && a.toList.all fun (shardID, va) =>
    match b.lookup shardID with
    | some vb => decide (ShardAssignment.getStatus va = ShardAssignment.getStatus vb)
    | none => false

/-- A shard whose owner changes records how its previous owner let it go,
unless it is drained or that owner is already cleaned up. -/
def buildHandoverStats (state : NamespaceState F) (previousOwnersByShard : Map String String)
    (executorID : String) (shardIDs : List String) : Map String ShardHandoverStats :=
  Map.ofList (shardIDs.filterMap fun shardID =>
    match previousOwnersByShard.lookup shardID with
    | none => none
    | some previousOwner =>
      if previousOwner = executorID then none
      else if state.isShardDrained shardID then none
      else match state.executor previousOwner with
      | none => none
      | some previousExecutor => some (shardID, {
          previousExecutorLastHeartbeatTime := previousExecutor.heartbeat.lastHeartbeat
          handoverType := if previousExecutor.isDraining then .graceful else .emergency }))

/-- The shards of a new record, all READY. -/
def readyShards (shardIDs : List String) : Map String (Option ShardAssignment) :=
  Map.ofList (shardIDs.map fun shardID => (shardID, some ⟨.ready⟩))

def isUnchanged (state : NamespaceState F) (executorID : String) (shardIDs : List String) : Bool :=
  match state.shardAssignments.lookup executorID with
  | some oldState => shardSetsEqual oldState.assignedShards (readyShards shardIDs)
  | none => false

/-- The record of an assignable executor. Its revision is the one read. -/
def newAssignedState (state : NamespaceState F) (previousOwnersByShard : Map String String) (now : Time)
    (executorID : String) (shardIDs : List String) : AssignedState where
  assignedShards := readyShards shardIDs
  shardHandoverStats := buildHandoverStats state previousOwnersByShard executorID shardIDs
  lastUpdated := if isUnchanged state executorID shardIDs then (state.assigned executorID).lastUpdated else now
  modRevision := (state.assigned executorID).modRevision

def buildNewAssignmentsState (state : NamespaceState F) (currentAssignments : ListMap String String)
    (executorsToUnassign : Map String Int) (previousOwnersByShard : Map String String) (now : Time) :
    Map String AssignedState × KeySet String :=
  let newAssignments := currentAssignments.toList.map fun (executorID, shardIDs) =>
    (executorID, newAssignedState state previousOwnersByShard now executorID shardIDs)
  let emptied := executorsToUnassign.toList.map fun (executorID, modRevision) =>
    (executorID, ⟨∅, ∅, now, modRevision⟩)
  let changed := currentAssignments.toList.filter fun (executorID, shardIDs) =>
    !isUnchanged state executorID shardIDs
  (Map.ofList (newAssignments ++ emptied),
    Map.ofList ((changed.map Prod.fst ++ executorsToUnassign.keys).map fun executorID => (executorID, ())))

/-- Whether a planning pass found anything to write. -/
def distributionChanged (staleExecutors : Map String Int) (p : Planned) : Bool :=
  p.deletedShards.keys.length > 0 || staleExecutors.keys.length > 0 ||
    p.loadBalanceMoves.length > 0 || p.drainedAssignedShards.length > 0 ||
    p.executorsToUnassign.keys.length > 0 || p.assignedToEmptyExecutors || p.updatedAssignments

/-- The write a rebalance decides on. -/
inductive Decision (F : Type) where
  | nothing
  | deleteExecutors (executorIDs : List String)
  | assignShards (request : AssignShardsRequest F)

/-- The request for a plan that changes the distribution. -/
def assignShardsRequest (choices : Choices) (state : NamespaceState F) (staleExecutors : Map String Int)
    (p : Planned) : AssignShardsRequest F :=
  let (newAssignments, executorsWithChangedAssignments) := buildNewAssignmentsState state
    p.currentAssignments p.executorsToUnassign (state.shardOwners choices.order) choices.assignmentTime
  { newState := { state with shardAssignments := newAssignments }
    executorsToDelete := staleExecutors
    changedExecutors := some executorsWithChangedAssignments }

variable [Float64 F]

/-- `rebalanceShardsImpl` from the snapshot it reads to the write it makes. -/
def rebalanceShardsImpl (choices : Choices) (cfg : Config F) (state : NamespaceState F) :
    Except Failure (Decision F) :=
  let staleExecutors := identifyStaleExecutors cfg.heartbeatTTL choices.now state
  let activeExecutors := state.assignableExecutorIDs staleExecutors
  if activeExecutors = [] then
    if staleExecutors.keys.length > 0 then
      .ok (.deleteExecutors (choices.order.rangeKeys "DeleteExecutors" staleExecutors))
    else .ok .nothing
  else do
    let p ← planAssignments choices cfg state staleExecutors activeExecutors
    if distributionChanged staleExecutors p then
      .ok (.assignShards (assignShardsRequest choices state staleExecutors p))
    else .ok .nothing

/-- Everything a rebalance that does not fail can decide. -/
theorem rebalanceShardsImpl_ok {choices : Choices} {cfg : Config F} {state : NamespaceState F}
    {stale : Map String Int} (hstale : identifyStaleExecutors cfg.heartbeatTTL choices.now state = stale)
    {decision : Decision F} (h : rebalanceShardsImpl choices cfg state = .ok decision) :
    ((∀ executorID, ¬state.Assignable stale executorID) ∧
      (decision = .nothing ∨ (∃ executorID, executorID ∈ stale) ∧
        decision = .deleteExecutors (choices.order.rangeKeys "DeleteExecutors" stale))) ∨
    ((∃ executorID, state.Assignable stale executorID) ∧
      ∃ p, planAssignments choices cfg state stale (state.assignableExecutorIDs stale) = .ok p ∧
        (distributionChanged stale p = false ∧ decision = .nothing ∨
          distributionChanged stale p = true ∧
            decision = .assignShards (assignShardsRequest choices state stale p))) := by
  subst hstale
  unfold rebalanceShardsImpl at h
  dsimp only at h
  split at h
  · rename_i hnil
    left
    refine ⟨fun e he => ?_, ?_⟩
    · have hmem := NamespaceState.mem_assignableExecutorIDs.mpr he
      rw [hnil] at hmem
      cases hmem
    · split at h
      · rename_i hlength
        cases h
        exact .inr ⟨List.exists_mem_of_length_pos hlength, rfl⟩
      · cases h
        exact .inl rfl
  · rename_i hne
    right
    obtain ⟨first, hfirst⟩ := List.exists_mem_of_ne_nil _ hne
    refine ⟨⟨first, NamespaceState.mem_assignableExecutorIDs.mp hfirst⟩, ?_⟩
    obtain ⟨p, hp, h⟩ := bind_eq_ok_iff.mp h
    refine ⟨p, hp, ?_⟩
    split at h
    · rename_i hchanged
      cases h
      exact .inr ⟨hchanged, rfl⟩
    · rename_i hchanged
      cases h
      exact .inl ⟨Bool.not_eq_true _ ▸ hchanged, rfl⟩

/-- `rebalanceShards`: the dynamic number of fixed shards decides how the
namespace is run. -/
def rebalanceShards (choices : Choices) (cfg : Config F) (fixedShardNum : Int) (state : NamespaceState F) :
    Except Failure (Decision F) :=
  rebalanceShardsImpl choices
    { cfg with namespaceCfg := config.effectiveNamespace cfg.namespaceCfg fixedShardNum } state

end process
