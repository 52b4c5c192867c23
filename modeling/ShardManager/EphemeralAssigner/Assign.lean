import ShardManager.Abstract.Ownership
import ShardManager.LoadBalancer.Dispatch

open golang store plan types

namespace ephemeralassigner

variable {F : Type}

/-- The requested shards with an owner, those to place, and the drained set. -/
structure Resolved where
  executorByShard : Map String String
  toPlace : List String
  drained : KeySet String

def resolveOwners (order : RangeOrder) (state : NamespaceState F) (shardKeys : List String) : Resolved :=
  let owners := state.shardOwners order
  let undrained := shardKeys.filter fun shardKey => decide (shardKey ∉ state.drainedShards)
  { executorByShard := Map.ofList (undrained.filterMap fun shardKey =>
      (owners.lookup shardKey).map fun executorID => (shardKey, executorID))
    toPlace := undrained.filter fun shardKey => decide (shardKey ∉ owners)
    drained := state.drainedShards }

def placementsByExecutor (placements : List Placement) : ListMap String String :=
  placements.foldl (fun out placement => ListMap.push out placement.executorID placement.shardID) ∅

/-- The record of an executor with further shards, all READY. -/
def mergeShards (existing : AssignedState) (shardKeys : List String) (now : Time) : AssignedState :=
  { existing with
    assignedShards := shardKeys.foldl (fun shards shardKey => shards.insert shardKey (some ⟨.ready⟩))
      existing.assignedShards
    lastUpdated := now }

/-- Folds the placements into the snapshot and names the executors it changes. -/
def mergePlacements (state : NamespaceState F) (placements : List Placement) (now : Time) :
    NamespaceState F × KeySet String :=
  let byExecutor := placementsByExecutor placements
  ({ state with
      shardAssignments := byExecutor.toList.foldl (fun assignments (executorID, shardKeys) =>
        assignments.insert executorID (mergeShards (state.assigned executorID) shardKeys now))
        state.shardAssignments },
    byExecutor.filterMapValues fun _ => some ())

/-- The write of a batch and the placements it makes. -/
structure Batch (F : Type) where
  placements : List Placement
  request : AssignShardsRequest F

variable [Float64 F]

/-- `tryAssignEphemeralBatch` from the snapshot it reads to the write it makes.
Without shards to place there is no write. -/
def planBatch (order : RangeOrder) (cfg : loadbalancer.Config F) (now : Time) (state : NamespaceState F)
    (shardKeys : List String) : Except Failure (Option (Batch F)) :=
  let resolved := resolveOwners order state shardKeys
  if resolved.toPlace = [] then .ok none
  else do
    let placements ← (loadbalancer.planInitialPlacement order cfg state resolved.toPlace).mapError
      (Failure.wrap "plan initial placement")
    let (newState, changedExecutors) := mergePlacements state placements now
    .ok (some ⟨placements, ⟨newState, ∅, some changedExecutors⟩⟩)

section Spec

omit [Float64 F]

theorem mem_toPlace {order : RangeOrder} {state : NamespaceState F} {shardKeys : List String}
    {shardKey : String} :
    shardKey ∈ (resolveOwners order state shardKeys).toPlace ↔ shardKey ∈ shardKeys ∧
      shardKey ∉ state.drainedShards ∧ ∀ executorID, ¬state.Stores executorID shardKey := by
  simp only [resolveOwners, List.mem_filter, decide_eq_true_eq, NamespaceState.mem_shardOwners,
    not_exists, and_assoc]

theorem mem_index_placementsByExecutor {placements : List Placement} {executorID shardKey : String} :
    shardKey ∈ ListMap.index (placementsByExecutor placements) executorID ↔
      ⟨shardKey, executorID⟩ ∈ placements := by
  suffices hfold : ∀ (l : List Placement) (out : ListMap String String),
      shardKey ∈ ListMap.index (l.foldl (fun out p => ListMap.push out p.executorID p.shardID) out) executorID ↔
        shardKey ∈ ListMap.index out executorID ∨ ⟨shardKey, executorID⟩ ∈ l by
    have h := hfold placements ∅
    rw [ListMap.index_of_not_mem (AList.notMem_empty _)] at h
    simpa [placementsByExecutor] using h
  intro l
  induction l with
  | nil => simp
  | cons p l ih =>
    intro out
    rw [List.foldl_cons, ih, ListMap.index_push, List.mem_cons]
    obtain ⟨pshard, pexec⟩ := p
    by_cases he : executorID = pexec
    · subst he
      simp [or_assoc]
    · simp [he]

/-- The executors that receive a shard. -/
theorem mem_placementsByExecutor_iff {placements : List Placement} {executorID : String} :
    executorID ∈ placementsByExecutor placements ↔ ∃ shardKey, ⟨shardKey, executorID⟩ ∈ placements := by
  suffices hfold : ∀ (l : List Placement) (out : ListMap String String),
      executorID ∈ l.foldl (fun out p => ListMap.push out p.executorID p.shardID) out ↔
        executorID ∈ out ∨ ∃ shardKey, ⟨shardKey, executorID⟩ ∈ l by
    simpa [placementsByExecutor] using hfold placements ∅
  intro l
  induction l with
  | nil => simp
  | cons p l ih =>
    intro out
    rw [List.foldl_cons, ih, ListMap.push, AList.mem_insert]
    obtain ⟨pshard, pexec⟩ := p
    constructor
    · rintro ((rfl | hout) | ⟨shardKey, hmem⟩)
      · exact .inr ⟨pshard, List.mem_cons_self⟩
      · exact .inl hout
      · exact .inr ⟨shardKey, List.mem_cons_of_mem _ hmem⟩
    · rintro (hout | ⟨shardKey, hmem⟩)
      · exact .inl (.inr hout)
      · rcases List.mem_cons.mp hmem with heq | hmem
        · cases heq
          exact .inl (.inl rfl)
        · exact .inr ⟨shardKey, hmem⟩

theorem mem_mergeShards {existing : AssignedState} {shardKeys : List String} {now : Time} {shardKey : String} :
    shardKey ∈ (mergeShards existing shardKeys now).assignedShards ↔
      shardKey ∈ existing.assignedShards ∨ shardKey ∈ shardKeys := by
  have hfold := Map.mem_foldl_insert (shardKeys.map fun key => (key, some (⟨.ready⟩ : ShardAssignment)))
    existing.assignedShards shardKey
  rw [List.foldl_map, List.map_map] at hfold
  rw [or_comm, mergeShards]
  simpa [Function.comp_def] using hfold

/-- The records of the executors that receive shards are extended, the others
stay as they are in the snapshot. -/
theorem lookup_mergePlacements (state : NamespaceState F) (placements : List Placement) (now : Time)
    (executorID : String) :
    (mergePlacements state placements now).1.shardAssignments.lookup executorID =
      match (placementsByExecutor placements).lookup executorID with
      | some shardKeys => some (mergeShards (state.assigned executorID) shardKeys now)
      | none => state.shardAssignments.lookup executorID := by
  have hfold : (mergePlacements state placements now).1.shardAssignments =
      ((placementsByExecutor placements).toList.map fun (executorID, shardKeys) =>
        (executorID, mergeShards (state.assigned executorID) shardKeys now)).foldl
          (fun m e => m.insert e.1 e.2) state.shardAssignments := by
    rw [List.foldl_map]
    rfl
  have hkeys : ((placementsByExecutor placements).toList.map fun (executorID, shardKeys) =>
      (executorID, mergeShards (state.assigned executorID) shardKeys now)).map Prod.fst =
        (placementsByExecutor placements).keys := by
    rw [List.map_map, ← Map.map_fst_toList]
    rfl
  rw [hfold]
  cases hlookup : (placementsByExecutor placements).lookup executorID with
  | some shardKeys =>
    refine Map.lookup_foldl_insert_of_mem _ _ ?_ (List.mem_map.mpr ⟨_, Map.mem_toList_iff.mpr hlookup, rfl⟩)
    rw [hkeys]
    exact AList.keys_nodup _
  | none =>
    apply Map.lookup_foldl_insert_of_not_mem
    rw [hkeys, ← AList.mem_keys]
    exact AList.lookup_eq_none.mp hlookup

theorem mem_changedExecutors {state : NamespaceState F} {placements : List Placement} {now : Time}
    {executorID : String} :
    executorID ∈ (mergePlacements state placements now).2 ↔ executorID ∈ placementsByExecutor placements := by
  rw [mergePlacements, Map.mem_iff_exists_lookup, Map.lookup_filterMapValues, Map.mem_iff_exists_lookup]
  simp [Option.bind_eq_some_iff]

/-- The shards of an executor after the merge are those it had and those it
is given. -/
theorem mem_mergePlacements {state : NamespaceState F} {placements : List Placement} {now : Time}
    {executorID shardKey : String} :
    (∃ entry, (mergePlacements state placements now).1.shardAssignments.lookup executorID = some entry ∧
      shardKey ∈ entry.assignedShards) ↔
    state.Stores executorID shardKey ∨ ⟨shardKey, executorID⟩ ∈ placements := by
  rw [lookup_mergePlacements, ← mem_index_placementsByExecutor]
  cases hlookup : (placementsByExecutor placements).lookup executorID with
  | some shardKeys =>
    rw [ListMap.index_of_lookup hlookup]
    simp only [Option.some.injEq, exists_eq_left']
    exact mem_mergeShards
  | none =>
    rw [ListMap.index_of_not_mem (AList.lookup_eq_none.mp hlookup)]
    simpa using NamespaceState.stores_iff.symm

end Spec

theorem planBatch_ok {order : RangeOrder} {cfg : loadbalancer.Config F} {now : Time} {state : NamespaceState F}
    {shardKeys : List String} {batch : Batch F} (h : planBatch order cfg now state shardKeys = .ok (some batch)) :
    loadbalancer.planInitialPlacement order cfg state (resolveOwners order state shardKeys).toPlace =
        .ok batch.placements ∧
      batch.request = ⟨(mergePlacements state batch.placements now).1, ∅,
        some (mergePlacements state batch.placements now).2⟩ := by
  unfold planBatch at h
  dsimp only at h
  split at h
  · cases h
  · obtain ⟨placements, hplacements, h⟩ := bind_eq_ok_iff.mp h
    rw [mapError_eq_ok_iff] at hplacements
    cases h
    exact ⟨hplacements, rfl⟩

/-- A shard is placed only if the assigner read it as undrained and unowned. -/
theorem unowned_of_placed {order : RangeOrder} {cfg : loadbalancer.Config F} {now : Time} {state : NamespaceState F}
    {shardKeys : List String} {batch : Batch F} (h : planBatch order cfg now state shardKeys = .ok (some batch))
    {executorID shardID : String} (hmem : ⟨shardID, executorID⟩ ∈ batch.placements) :
    shardID ∈ shardKeys ∧ shardID ∉ state.drainedShards ∧ ∀ executorID, ¬state.Stores executorID shardID := by
  obtain ⟨hplacements, -⟩ := planBatch_ok h
  obtain ⟨-, hplaced, -⟩ := loadbalancer.planInitialPlacement_ok hplacements
  exact mem_toPlace.mp ((hplaced _).mp (List.mem_map_of_mem hmem))

/-- Placements of different shards place each shard on one executor. -/
theorem exclusive_placements {placements : List Placement} (h : (placements.map Placement.shardID).Nodup) :
    ownership.Exclusive fun executorID shardID => (⟨shardID, executorID⟩ : Placement) ∈ placements := by
  intro executorID executorID' shardID hmem hmem'
  have heq := List.inj_on_of_nodup_map h hmem hmem' rfl
  cases heq
  rfl

end ephemeralassigner
