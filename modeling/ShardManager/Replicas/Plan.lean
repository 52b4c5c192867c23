import ShardManager.Abstract.Ownership
import ShardManager.EphemeralAssigner.Assign
import ShardManager.ExecutorStore.Read
import ShardManager.Process.Request

open golang etcd etcdkeys store plan executorstore ownership

namespace replicas

variable {F : Type}

/-- Who planned a write, with the inputs that bound what it can hand out. -/
inductive Origin (F : Type) where
  | leader (cfg : process.Config F) (now : Time)
  | assigner (shardKeys : List String)

namespace Origin

/-- The executors whose records the planner compares, read off its snapshot. A
leader leaves out executors that are neither assignable nor stale and store
nothing; an assigner leaves out executors without a record. -/
def Compares (origin : Origin F) (state : NamespaceState F) (executorID : String) : Prop :=
  match origin with
  | .leader cfg now =>
    state.Assignable (process.identifyStaleExecutors cfg.heartbeatTTL now state) executorID ∨
      executorID ∈ process.identifyStaleExecutors cfg.heartbeatTTL now state ∨
      ∃ shardID, state.Stores executorID shardID
  | .assigner _ => executorID ∈ state.shardAssignments

/-- The shards nobody has in the snapshot and the planner may hand out. -/
def Fresh (origin : Origin F) (state : NamespaceState F) (shardID : String) : Prop :=
  (∀ executorID, ¬state.Stores executorID shardID) ∧ state.isShardDrained shardID = false ∧
    match origin with
    | .leader cfg _ => cfg.namespaceCfg.type = .fixed ∧
      ∃ shards, process.makeShards cfg.namespaceCfg.shardNum = .ok shards ∧ shardID ∈ shards
    | .assigner shardKeys => shardID ∈ shardKeys

end Origin

/-- The executors whose records a request compares. -/
def compared (request : AssignShardsRequest F) : Set String :=
  {executorID | executorID ∈ request.executorsToDelete ∨ executorID ∈ request.newState.shardAssignments}

/-- What a request leaves with the executors it compares. -/
def gives (request : AssignShardsRequest F) : Table String String := fun executorID shardID =>
  executorID ∉ request.executorsToDelete ∧
    ∃ entry, request.newState.shardAssignments.lookup executorID = some entry ∧ shardID ∈ entry.assignedShards

/-- What is known of a request from the snapshot it was planned on. -/
structure Plan (origin : Origin F) (state : NamespaceState F) (request : AssignShardsRequest F) : Prop where
  deleted_revision : ∀ {executorID revision}, request.executorsToDelete.lookup executorID = some revision →
    revision = (state.assigned executorID).modRevision
  entry_revision : ∀ {executorID entry}, request.newState.shardAssignments.lookup executorID = some entry →
    entry.modRevision = (state.assigned executorID).modRevision
  slashFree : ∀ {executorID}, executorID ∈ compared request → SlashFree executorID
  unwritten : ∀ {executorID entry}, request.newState.shardAssignments.lookup executorID = some entry →
    isWritten request executorID = false →
    ∀ shardID, shardID ∈ entry.assignedShards ↔ state.Stores executorID shardID
  exclusive : Exclusive state.Stores → Exclusive (gives request)
  source : ∀ {executorID shardID}, gives request executorID shardID →
    (∃ e₀ ∈ compared request, state.Stores e₀ shardID) ∨ origin.Fresh state shardID
  compares : ∀ {executorID}, origin.Compares state executorID → executorID ∈ compared request

section Leader

theorem getShards_stored_or_fresh {choices : process.Choices} {cfg : process.Config F}
    {state : NamespaceState F} {deleted : Map String ShardState} {shards : List String}
    (h : process.getShards choices.order cfg.namespaceCfg state deleted = .ok shards) {shardID : String}
    (hmem : shardID ∈ shards) (hdrained : state.isShardDrained shardID = false) :
    (∃ executorID, state.Stores executorID shardID) ∨ (Origin.leader cfg choices.now).Fresh state shardID := by
  by_cases hstored : ∃ executorID, state.Stores executorID shardID
  · exact .inl hstored
  · rw [not_exists] at hstored
    refine .inr ⟨hstored, hdrained, ?_⟩
    unfold process.getShards at h
    split at h
    · rename_i htype
      exact ⟨htype, shards, h, hmem⟩
    · cases h
      simp only [List.mem_flatMap, Prod.exists, RangeOrder.mem_range_iff, List.mem_filter,
        RangeOrder.mem_rangeKeys] at hmem
      obtain ⟨e, assigned, hlookup, hshard, -⟩ := hmem
      exact absurd (NamespaceState.stores_iff.mpr ⟨assigned, hlookup, hshard⟩) (hstored e)
    · cases h
      cases hmem

variable [Float64 F] [LawfulFloat64 F] {choices : process.Choices} {cfg : process.Config F}
  {state : NamespaceState F} {request : AssignShardsRequest F}

/-- A leader's request writes a plan for the assignable executors. -/
theorem allots_of_leader (h : process.rebalanceShardsImpl choices cfg state = .ok (.assignShards request)) :
    ∃ p shards available,
      process.Allots choices cfg state (process.identifyStaleExecutors cfg.heartbeatTTL choices.now state) p
        shards available ∧
      request = process.assignShardsRequest choices state
        (process.identifyStaleExecutors cfg.heartbeatTTL choices.now state) p := by
  rcases process.rebalanceShardsImpl_ok rfl h with ⟨-, hdecision | ⟨-, hdecision⟩⟩ | ⟨hactive, p, hplan, hcase⟩
  · cases hdecision
  · cases hdecision
  rcases hcase with ⟨-, hdecision⟩ | ⟨-, hdecision⟩
  · cases hdecision
  cases hdecision
  obtain ⟨shards, available, hallots⟩ := process.allots_of_planAssignments hactive hplan
  exact ⟨p, shards, available, hallots, rfl⟩

omit [LawfulFloat64 F] in
theorem gives_allotted {stale : Map String Int} {p : process.Planned} {shards available : List String}
    (hallots : process.Allots choices cfg state stale p shards available) {executorID shardID : String}
    (h : gives (process.assignShardsRequest choices state stale p) executorID shardID) :
    shardID ∈ ListMap.index p.currentAssignments executorID := by
  obtain ⟨-, entry, hlookup, hmem⟩ := h
  exact (hallots.mem_entry hlookup).mp hmem

omit [LawfulFloat64 F] in
/-- Whoever a leader finds assignable, stale or storing something, it compares. -/
theorem compared_of_leader {stale : Map String Int} {p : process.Planned} {shards available : List String}
    (hallots : process.Allots choices cfg state stale p shards available) {executorID : String}
    (h : state.Assignable stale executorID ∨ executorID ∈ stale ∨ ∃ shardID, state.Stores executorID shardID) :
    executorID ∈ compared (process.assignShardsRequest choices state stale p) := by
  by_cases hassignable : state.Assignable stale executorID
  · exact .inr (hallots.mem_request.mpr (.inl hassignable))
  · by_cases hmem : executorID ∈ stale
    · exact .inl hmem
    · have hstores : ∃ shardID, state.Stores executorID shardID := by tauto
      exact .inr (hallots.mem_request.mpr (.inr ((hallots.unassign _).mpr ⟨hstores, hassignable, hmem⟩)))

/-- What a leader writes is a plan on the state it read. -/
theorem plan_of_leader (h : process.rebalanceShardsImpl choices cfg state = .ok (.assignShards request))
    (hid : ∀ {executorID}, executorID ∈ state.executors → SlashFree executorID)
    (hid' : ∀ {executorID}, executorID ∈ state.shardAssignments → SlashFree executorID) :
    Plan (.leader cfg choices.now) state request := by
  obtain ⟨p, shards, available, hallots, rfl⟩ := allots_of_leader h
  generalize hstale : process.identifyStaleExecutors cfg.heartbeatTTL choices.now state = stale at hallots
  have hnodup := hallots.distributes.perm.nodup_iff.mpr hallots.nodup
  refine ⟨?_, ?_, ?_, ?_, ?_, ?_, ?_⟩
  · intro executorID revision hlookup
    rw [← hstale] at hlookup
    exact (process.lookup_identifyStaleExecutors hlookup).2
  · intro executorID entry hlookup
    rcases hallots.lookup_request.mp hlookup with ⟨shardIDs, -, rfl⟩ | ⟨revision, hun, rfl⟩
    · rfl
    · rw [hallots.planned.unassign] at hun
      exact process.lookup_findExecutorsToUnassign hun
  · rintro executorID (hmem | hmem)
    · obtain ⟨revision, hlookup⟩ := Map.mem_iff_exists_lookup.mp hmem
      rw [← hstale] at hlookup
      exact hid (process.lookup_identifyStaleExecutors hlookup).1
    · rcases hallots.mem_request.mp hmem with ⟨e, he, -⟩ | hun
      · obtain ⟨heartbeat, hheartbeat, -⟩ := Option.map_eq_some_iff.mp he
        exact hid (Map.mem_iff_exists_lookup.mpr ⟨_, hheartbeat⟩)
      · obtain ⟨⟨shardID, hstores⟩, -⟩ := (hallots.unassign executorID).mp hun
        obtain ⟨state', hstate, -⟩ := NamespaceState.stores_iff.mp hstores
        exact hid' (Map.mem_iff_exists_lookup.mpr ⟨_, hstate⟩)
  · intro executorID entry hlookup hwritten shardID
    rcases hallots.lookup_request.mp hlookup with ⟨shardIDs, hcurrent, rfl⟩ | ⟨revision, hun, rfl⟩
    · rw [process.stores_iff_of_isUnchanged (process.isUnchanged_of_not_written hcurrent hwritten)]
      exact process.mem_readyShards
    · exact absurd (process.isWritten_of_unassign hun) (by rw [hwritten]; simp)
  · intro _ e e' shardID hg hg'
    exact ListMap.index_unique hnodup (gives_allotted hallots hg) (gives_allotted hallots hg')
  · intro executorID shardID hg
    have havailable := hallots.mem_available (gives_allotted hallots hg)
    obtain ⟨hmem, hdrained⟩ := (hallots.available_iff shardID).mp havailable
    rcases getShards_stored_or_fresh hallots.shards_eq hmem hdrained with ⟨e₀, hstores⟩ | hfresh
    · exact .inl ⟨e₀, compared_of_leader hallots (.inr (.inr ⟨shardID, hstores⟩)), hstores⟩
    · exact .inr hfresh
  · intro executorID hcompare
    rw [Origin.Compares, hstale] at hcompare
    exact compared_of_leader hallots hcompare

/-- A leader gives nobody a shard it read as drained. -/
theorem undrained_of_leader (h : process.rebalanceShardsImpl choices cfg state = .ok (.assignShards request))
    {executorID shardID : String} (hgives : gives request executorID shardID) :
    state.isShardDrained shardID = false := by
  obtain ⟨p, shards, available, hallots, rfl⟩ := allots_of_leader h
  exact ((hallots.available_iff shardID).mp (hallots.mem_available (gives_allotted hallots hgives))).2

end Leader

section Assigner

open ephemeralassigner

variable [Float64 F]

variable {order : RangeOrder} {cfg : loadbalancer.Config F} {now : Time} {state : NamespaceState F}
  {shardKeys : List String} {batch : Batch F}

omit [Float64 F] in
theorem gives_mergePlacements {placements : List Placement} {executorID shardID : String} :
    gives (F := F) ⟨(mergePlacements state placements now).1, ∅, some (mergePlacements state placements now).2⟩
      executorID shardID ↔ state.Stores executorID shardID ∨ ⟨shardID, executorID⟩ ∈ placements := by
  rw [← mem_mergePlacements]
  exact and_iff_right (AList.notMem_empty _)

/-- An assigner leaves a shard it read as drained where it was. -/
theorem stored_of_assigner (h : planBatch order cfg now state shardKeys = .ok (some batch))
    {executorID shardID : String} (hgives : gives batch.request executorID shardID)
    (hdrained : state.isShardDrained shardID = true) : state.Stores executorID shardID := by
  rw [(planBatch_ok h).2, gives_mergePlacements] at hgives
  refine hgives.resolve_right fun hmem => ?_
  exact (unowned_of_placed h hmem).2.1 (of_decide_eq_true hdrained)

/-- What an assigner writes is a plan on the state it read. -/
theorem plan_of_assigner (h : planBatch order cfg now state shardKeys = .ok (some batch))
    (hid : ∀ {executorID}, executorID ∈ state.executors → SlashFree executorID)
    (hid' : ∀ {executorID}, executorID ∈ state.shardAssignments → SlashFree executorID) :
    Plan (.assigner shardKeys) state batch.request := by
  obtain ⟨hplacements, hrequest⟩ := planBatch_ok h
  obtain ⟨hnodup, -, hassignable⟩ := loadbalancer.planInitialPlacement_ok hplacements
  have hunowned := @unowned_of_placed _ _ _ _ _ _ _ _ h
  rw [hrequest]
  generalize batch.placements = placements at hplacements hnodup hassignable hunowned
  refine ⟨?_, ?_, ?_, ?_, ?_, ?_, ?_⟩
  · intro executorID revision hlookup
    cases hlookup
  · intro executorID entry hlookup
    rw [lookup_mergePlacements] at hlookup
    split at hlookup
    · cases hlookup
      rfl
    · rw [NamespaceState.assigned, hlookup, Option.getD_some]
  · rintro executorID (hmem | hmem)
    · exact absurd hmem (AList.notMem_empty _)
    · obtain ⟨entry, hlookup⟩ := Map.mem_iff_exists_lookup.mp hmem
      rw [lookup_mergePlacements] at hlookup
      split at hlookup
      · rename_i keys hkeys
        -- An executor that receives shards was chosen among the assignable ones.
        have hchosen : executorID ∈ state.executors := by
          obtain ⟨shardKey, hshard⟩ := mem_placementsByExecutor_iff.mp
            (Map.mem_iff_exists_lookup.mpr ⟨keys, hkeys⟩)
          obtain ⟨e, he, -⟩ := hassignable _ hshard
          obtain ⟨heartbeat, hheartbeat, -⟩ := Option.map_eq_some_iff.mp he
          exact Map.mem_iff_exists_lookup.mpr ⟨_, hheartbeat⟩
        exact hid hchosen
      · exact hid' (Map.mem_iff_exists_lookup.mpr ⟨_, hlookup⟩)
  · intro executorID entry hlookup hwritten shardID
    have hunchanged : executorID ∉ placementsByExecutor placements := by
      rw [← mem_changedExecutors]
      exact of_decide_eq_false hwritten
    rw [lookup_mergePlacements, AList.lookup_eq_none.mpr hunchanged] at hlookup
    dsimp only at hlookup
    rw [NamespaceState.Stores, NamespaceState.assigned, hlookup, Option.getD_some]
  · intro hexclusive
    refine (hexclusive.add (exclusive_placements hnodup) ?_).mono fun _ _ => gives_mergePlacements.mp
    exact fun _ _ hmem => (hunowned hmem).2.2
  · intro executorID shardID hg
    rcases gives_mergePlacements.mp hg with hstores | hmem
    · obtain ⟨-, entry, hlookup, -⟩ := hg
      exact .inl ⟨executorID, .inr (Map.mem_iff_exists_lookup.mpr ⟨_, hlookup⟩), hstores⟩
    · obtain ⟨hkey, hdrained, hnone⟩ := hunowned hmem
      exact .inr ⟨hnone, decide_eq_false hdrained, hkey⟩
  · intro executorID hcompare
    right
    obtain ⟨assigned, hlookup⟩ := Map.mem_iff_exists_lookup.mp hcompare
    rw [Map.mem_iff_exists_lookup, lookup_mergePlacements]
    split
    · exact ⟨_, rfl⟩
    · exact ⟨assigned, hlookup⟩

end Assigner

end replicas
