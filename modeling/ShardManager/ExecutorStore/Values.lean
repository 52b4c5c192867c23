import ShardManager.Etcd.History
import ShardManager.EtcdKeys
import ShardManager.State

open golang etcd store types

namespace etcdtypes

variable {F : Type} {β : Type}

/-- The entries of a JSON object, which `encoding/json` writes sorted by key. -/
def jsonObject (m : Map String β) : List (String × β) :=
  m.toList.insertionSort fun a b => a.1 ≤ b.1

/-- The assignment record as stored. `ModRevision` is not serialized. -/
structure AssignedState where
  assignedShards : List (String × Option ShardAssignment)
  shardHandoverStats : List (String × ShardHandoverStats)
  lastUpdated : Time
deriving DecidableEq

def fromAssignedState (state : store.AssignedState) : AssignedState where
  assignedShards := jsonObject state.assignedShards
  shardHandoverStats := jsonObject state.shardHandoverStats
  lastUpdated := state.lastUpdated

def AssignedState.toAssignedState (stored : AssignedState) (modRevision : Int) : store.AssignedState where
  assignedShards := Map.ofList stored.assignedShards
  shardHandoverStats := Map.ofList stored.shardHandoverStats
  lastUpdated := stored.lastUpdated
  modRevision := modRevision

/-- Everything the service stores, decoded. `text` is what is stored as a
plain string: metadata values, markers, and what other programs write. -/
inductive Value (F : Type) where
  | time (t : Time)
  | status (status : ExecutorStatus)
  | reportedShards (reports : List (String × Option (ShardStatusReport F)))
  | assignedState (state : AssignedState)
  | statistics (statistics : List (String × ShardStatistics F))
  | hostMetadata (host : HostMetadata)
  | drainedHost (host : DrainedHost)
  | text (s : String)
deriving DecidableEq

/-- Decoding what was encoded gives the same entries. -/
theorem lookup_ofList_jsonObject (m : Map String β) (key : String) :
    (Map.ofList (jsonObject m)).lookup key = m.lookup key := by
  have hperm : (jsonObject m).Perm m.toList := List.perm_insertionSort _ _
  have hnodup : ((jsonObject m).map Prod.fst).Nodup :=
    (hperm.map _).nodup_iff.mpr (Map.nodup_map_fst_toList m)
  refine Option.ext fun value => ?_
  rw [Map.lookup_ofList_iff hnodup, hperm.mem_iff, Map.mem_toList_iff]

/-- The stored shards of a record are those of the state it was made from. -/
theorem mem_fromAssignedState {state : store.AssignedState} {shardID : String} :
    shardID ∈ (fromAssignedState state).assignedShards.map Prod.fst ↔ shardID ∈ state.assignedShards := by
  have hperm : (jsonObject state.assignedShards).Perm state.assignedShards.toList := List.perm_insertionSort _ _
  rw [fromAssignedState, (hperm.map _).mem_iff, Map.map_fst_toList, ← AList.mem_keys]

end etcdtypes
