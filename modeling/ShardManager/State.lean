import ShardManager.Golang.Basic
import ShardManager.Golang.Map
import Mathlib.Data.List.Sort
import Mathlib.Data.String.Basic

open golang

namespace types

inductive ExecutorStatus where
  | invalid
  | active
  | draining
  | drained
deriving DecidableEq, Repr

inductive ShardStatus where
  | invalid
  | ready
  | done
deriving DecidableEq, Repr

inductive AssignmentStatus where
  | invalid
  | ready
deriving DecidableEq, Repr

inductive HandoverType where
  | invalid
  | graceful
  | emergency
deriving DecidableEq, Repr

structure ShardStatusReport (F : Type) where
  status : ShardStatus
  shardLoad : F
deriving DecidableEq, Repr

structure HostMetadata where
  hostName : String
deriving DecidableEq, Repr

structure ShardAssignment where
  status : AssignmentStatus
deriving DecidableEq, Repr

/-- `GetStatus` on a possibly nil pointer. -/
def ShardAssignment.getStatus : Option ShardAssignment → AssignmentStatus
  | some assignment => assignment.status
  | none => .invalid

end types

namespace store

open types

variable {F : Type}

structure HeartbeatState (F : Type) where
  lastHeartbeat : Time
  status : ExecutorStatus
  reportedShards : Map String (Option (ShardStatusReport F))
  metadata : Map String String
  hostMetadata : Option HostMetadata

def HeartbeatState.hostname (h : HeartbeatState F) : String :=
  match h.hostMetadata with
  | some host => host.hostName
  | none => ""

/-- A read-only view of one executor. -/
structure Executor (F : Type) where
  id : String
  heartbeat : HeartbeatState F
  hostDrained : Bool

def Executor.isAssignable (e : Executor F) (staleExecutors : Map String Int) : Bool :=
  if e.heartbeat.status ≠ .active ∨ e.hostDrained = true then false
  else !decide (e.id ∈ staleExecutors)

def Executor.isDraining (e : Executor F) : Bool :=
  e.heartbeat.status = .draining || e.heartbeat.status = .drained || e.hostDrained

structure ShardHandoverStats where
  previousExecutorLastHeartbeatTime : Time
  handoverType : HandoverType
deriving DecidableEq, Repr

structure AssignedState where
  assignedShards : Map String (Option ShardAssignment)
  shardHandoverStats : Map String ShardHandoverStats
  lastUpdated : Time
  modRevision : Int

/-- The zero value, which Go reads for an executor without a record. -/
instance : Inhabited AssignedState := ⟨⟨∅, ∅, 0, 0⟩⟩

structure DrainedHost where
  hostname : String
  drainedAt : Time
  drainedBy : String
  reason : String
deriving DecidableEq, Repr

structure ShardStatistics (F : Type) where
  smoothedLoad : F
  lastUpdateTime : Time
  lastMoveTime : Time
deriving DecidableEq, Repr

structure ShardState where
  executorID : String
deriving DecidableEq, Repr

/-- Who owns which shards in a namespace, and which shards are drained. -/
structure AssignmentState where
  executorMetadata : Map String (Map String String)
  shardAssignments : Map String AssignedState
  drainedShards : KeySet String
  revision : Int
  assignmentRevision : Int

/-- The full snapshot of a namespace. -/
structure NamespaceState (F : Type) extends AssignmentState where
  executors : Map String (HeartbeatState F)
  shardStats : Map String (ShardStatistics F)
  drainedHosts : Map String DrainedHost

/-- A write of assignments and deletion of executors, guarded by the revisions
it carries. `changedExecutors` is nil for callers that write every record. -/
structure AssignShardsRequest (F : Type) where
  newState : NamespaceState F
  executorsToDelete : Map String Int
  changedExecutors : Option (KeySet String)

namespace NamespaceState

/-- A snapshot with given heartbeats and READY shards, all records at one
revision and nothing drained. -/
def ofStored (executors : List (String × HeartbeatState F)) (stored : List (String × List String)) :
    NamespaceState F where
  executorMetadata := ∅
  shardAssignments := Map.ofList (stored.map fun (executorID, shardIDs) =>
    (executorID, ⟨Map.ofList (shardIDs.map fun shardID => (shardID, some ⟨.ready⟩)), ∅, 0, 1⟩))
  drainedShards := ∅
  revision := 1
  assignmentRevision := 1
  executors := Map.ofList executors
  shardStats := ∅
  drainedHosts := ∅

/-- Indexing `ShardAssignments` with an executor that may be missing. -/
def assigned (ns : NamespaceState F) (executorID : String) : AssignedState :=
  (ns.shardAssignments.lookup executorID).getD default

/-- The snapshot stores a shard under an executor. -/
def Stores (ns : NamespaceState F) (executorID shardID : String) : Prop :=
  shardID ∈ (ns.assigned executorID).assignedShards

instance (ns : NamespaceState F) (executorID shardID : String) :
    Decidable (ns.Stores executorID shardID) :=
  inferInstanceAs (Decidable (_ ∈ _))

/-- Flattens the per-executor assignments into a shard to executor lookup. -/
def shardOwners (order : RangeOrder) (ns : NamespaceState F) : Map String String :=
  Map.ofList ((order.range "ShardOwners" ns.shardAssignments).flatMap fun (executorID, state) =>
    (order.rangeKeys s!"ShardOwners/{executorID}" state.assignedShards).map
      fun shardID => (shardID, executorID))

def isShardDrained (ns : NamespaceState F) (shardID : String) : Bool :=
  decide (shardID ∈ ns.drainedShards)

def isHostDrained (ns : NamespaceState F) (hostname : String) : Bool :=
  decide (hostname ∈ ns.drainedHosts)

def newExecutor (ns : NamespaceState F) (executorID : String) (heartbeat : HeartbeatState F) :
    Executor F where
  id := executorID
  heartbeat := heartbeat
  hostDrained := heartbeat.hostname != "" && ns.isHostDrained heartbeat.hostname

/-- The view of an executor, if it has a heartbeat. -/
def executor (ns : NamespaceState F) (executorID : String) : Option (Executor F) :=
  (ns.executors.lookup executorID).map (ns.newExecutor executorID)

/-- The executors that may hold shards, sorted. -/
def assignableExecutorIDs (ns : NamespaceState F) (staleExecutors : Map String Int) : List String :=
  ((ns.executors.toList.filter fun (executorID, heartbeat) =>
    (ns.newExecutor executorID heartbeat).isAssignable staleExecutors).map Prod.fst).insertionSort (· ≤ ·)

/-- ACTIVE, on a host that is not drained, and not among the stale executors. -/
def Assignable (ns : NamespaceState F) (staleExecutors : Map String Int) (executorID : String) : Prop :=
  ∃ e, ns.executor executorID = some e ∧ e.isAssignable staleExecutors = true

theorem mem_assignableExecutorIDs {ns : NamespaceState F} {stale : Map String Int}
    {executorID : String} :
    executorID ∈ ns.assignableExecutorIDs stale ↔ ns.Assignable stale executorID := by
  rw [assignableExecutorIDs, (List.perm_insertionSort _ _).mem_iff]
  simp only [List.mem_map, List.mem_filter, Prod.exists, exists_and_right, exists_eq_right,
    Map.mem_toList_iff, Assignable, executor, Option.map_eq_some_iff]
  constructor
  · rintro ⟨heartbeat, hlookup, hassignable⟩
    exact ⟨_, ⟨heartbeat, hlookup, rfl⟩, hassignable⟩
  · rintro ⟨e, ⟨heartbeat, hlookup, rfl⟩, hassignable⟩
    exact ⟨heartbeat, hlookup, hassignable⟩

theorem nodup_assignableExecutorIDs (ns : NamespaceState F) (stale : Map String Int) :
    (ns.assignableExecutorIDs stale).Nodup := by
  refine (List.perm_insertionSort _ _).nodup_iff.mpr ?_
  exact (Map.nodup_map_fst_toList ns.executors).sublist (List.filter_sublist.map Prod.fst)

theorem assignable_iff {ns : NamespaceState F} {stale : Map String Int} {executorID : String} :
    ns.Assignable stale executorID ↔ ∃ heartbeat, ns.executors.lookup executorID = some heartbeat ∧
      heartbeat.status = .active ∧ (heartbeat.hostname = "" ∨ ns.isHostDrained heartbeat.hostname = false) ∧
        executorID ∉ stale := by
  unfold Assignable executor
  cases ns.executors.lookup executorID with
  | none => simp
  | some heartbeat =>
    by_cases hhost : heartbeat.hostname = "" <;> simp [Executor.isAssignable, newExecutor, hhost, and_assoc]

theorem stores_iff {ns : NamespaceState F} {executorID shardID : String} :
    ns.Stores executorID shardID ↔
      ∃ state, ns.shardAssignments.lookup executorID = some state ∧ shardID ∈ state.assignedShards := by
  unfold Stores assigned
  cases h : ns.shardAssignments.lookup executorID with
  | none => simp [default]
  | some state => simp

theorem stores_ofStored {executors : List (String × HeartbeatState F)}
    {stored : List (String × List String)} (hnodup : (stored.map Prod.fst).Nodup)
    {executorID shardID : String} :
    (ofStored executors stored).Stores executorID shardID ↔
      ∃ shardIDs, (executorID, shardIDs) ∈ stored ∧ shardID ∈ shardIDs := by
  have hkeys : ((stored.map fun (executorID, shardIDs) => (executorID,
      (⟨Map.ofList (shardIDs.map fun shardID => (shardID, some ⟨.ready⟩)), ∅, 0, 1⟩ : AssignedState))).map
        Prod.fst).Nodup := by
    simpa [Function.comp_def] using hnodup
  rw [stores_iff]
  constructor
  · rintro ⟨state, hlookup, hmem⟩
    have hentry : executorID ∈ stored.map Prod.fst := by
      have hkey := Map.mem_iff_exists_lookup.mpr ⟨state, hlookup⟩
      rw [ofStored, Map.mem_ofList] at hkey
      simpa [Function.comp_def] using hkey
    obtain ⟨⟨e, shardIDs⟩, hstored, rfl⟩ := List.mem_map.mp hentry
    refine ⟨shardIDs, hstored, ?_⟩
    rw [ofStored, Map.ofList, Map.lookup_foldl_insert_of_mem _ _ hkeys
      (List.mem_map.mpr ⟨_, hstored, rfl⟩)] at hlookup
    cases hlookup
    simpa [Map.mem_ofList, Function.comp_def] using hmem
  · rintro ⟨shardIDs, hstored, hmem⟩
    refine ⟨_, Map.lookup_foldl_insert_of_mem _ _ hkeys (List.mem_map.mpr ⟨_, hstored, rfl⟩), ?_⟩
    simpa [Map.mem_ofList, Function.comp_def] using hmem

theorem mem_shardOwners {order : RangeOrder} {ns : NamespaceState F} {shardID : String} :
    shardID ∈ ns.shardOwners order ↔ ∃ executorID, ns.Stores executorID shardID := by
  simp only [shardOwners, Map.mem_ofList, List.map_flatMap, List.map_map, List.mem_flatMap,
    Prod.exists, RangeOrder.mem_range_iff, stores_iff]
  simp [Function.comp_def]

theorem stores_of_shardOwners {order : RangeOrder} {ns : NamespaceState F} {executorID shardID : String}
    (h : (ns.shardOwners order).lookup shardID = some executorID) : ns.Stores executorID shardID := by
  obtain ⟨⟨e, state⟩, hentry, hmem⟩ := List.mem_flatMap.mp (Map.mem_of_lookup_ofList h)
  obtain ⟨_, hshard, heq⟩ := List.mem_map.mp hmem
  cases heq
  exact stores_iff.mpr ⟨state, RangeOrder.mem_range_iff.mp hentry, RangeOrder.mem_rangeKeys.mp hshard⟩

end NamespaceState

end store
