import ShardManager.Cache.ShardCache
import ShardManager.EphemeralAssigner.Assign
import ShardManager.EphemeralAssigner.Batcher

open golang store plan batcher

namespace ephemeralassigner

variable {F : Type}

/-- How an attempt fails. Only a version conflict of the write is retried. -/
inductive AttemptError where
  /-- `get namespace state: %v`. -/
  | getState (cause : String)
  /-- `plan initial placement: %v`, or a panic. -/
  | failed (cause : Failure)
  /-- `assign ephemeral shards: %w`, with `%v` if it is no version conflict. -/
  | assignShards (cause : executorstore.AssignShardsError)
  /-- `get executor %q: %v`. -/
  | getExecutor (executorID cause : String)
deriving DecidableEq, Repr

/-- Calls `GetExecutor` of the cache once for each executor that owns one of the
shards. -/
def fetchExecutorMetadata (order : RangeOrder) (getExecutor : String → Except String cache.ShardOwner)
    (executorByShard : Map String String) : Except AttemptError (Map String cache.ShardOwner) :=
  (order.range "fetchExecutorMetadata" executorByShard).foldlM (fun executorOwners (_, executorID) =>
    if executorID ∈ executorOwners then .ok executorOwners
    else do
      let owner ← (getExecutor executorID).mapError (.getExecutor executorID)
      .ok (executorOwners.insert executorID owner)) ∅

/-- The response for every shard with an owner. An owner that was not fetched
would be a nil pointer. -/
def buildResults (ns : String) (shardKeys : List String) (executorByShard : Map String String)
    (executorOwners : Map String cache.ShardOwner) : Except AttemptError (Map String (Option GetShardOwnerResponse)) :=
  shardKeys.foldlM (fun results shardKey =>
    match executorByShard.lookup shardKey with
    | none => .ok results
    | some executorID =>
      match executorOwners.lookup executorID with
      | none => .error (.failed (.panic "invalid memory address or nil pointer dereference"))
      | some owner => .ok (results.insert shardKey (some ⟨owner.executorID, ns, owner.metadata⟩))) ∅

/-- An attempt to assign a batch: the write that it makes, if any, and what it
returns. -/
structure Attempt (F : Type) where
  write : Option (AssignShardsRequest F)
  result : Except AttemptError (Map String (Option GetShardOwnerResponse) × KeySet String)

/-- What the attempt returns once all owners are known. -/
def respond (order : RangeOrder) (ns : String) (getExecutor : String → Except String cache.ShardOwner)
    (shardKeys : List String) (drained : KeySet String) (executorByShard : Map String String) :
    Except AttemptError (Map String (Option GetShardOwnerResponse) × KeySet String) := do
  let executorOwners ← fetchExecutorMetadata order getExecutor executorByShard
  let results ← buildResults ns shardKeys executorByShard executorOwners
  .ok (results, drained)

/-- `tryAssignEphemeralBatch`, given what the store returns for the read and the
write and what the cache knows of executors. -/
def tryAssignEphemeralBatch [Float64 F] (order : RangeOrder) (cfg : loadbalancer.Config F) (now : Time) (ns : String)
    (getState : Except String (NamespaceState F))
    (assignShards : AssignShardsRequest F → Except executorstore.AssignShardsError Unit)
    (getExecutor : String → Except String cache.ShardOwner) (shardKeys : List String) : Attempt F :=
  match getState with
  | .error cause => ⟨none, .error (.getState cause)⟩
  | .ok state =>
    let resolved := resolveOwners order state shardKeys
    match planBatch order cfg now state shardKeys with
    | .error cause => ⟨none, .error (.failed cause)⟩
    | .ok none => ⟨none, respond order ns getExecutor shardKeys resolved.drained resolved.executorByShard⟩
    | .ok (some batch) =>
      match assignShards batch.request with
      | .error cause => ⟨some batch.request, .error (.assignShards cause)⟩
      | .ok () =>
        let executorByShard := batch.placements.foldl
          (fun executorByShard placement => executorByShard.insert placement.shardID placement.executorID)
          resolved.executorByShard
        ⟨some batch.request, respond order ns getExecutor shardKeys resolved.drained executorByShard⟩

section Responses

variable {order : RangeOrder} {ns : String} {getExecutor : String → Except String cache.ShardOwner}
  {executorByShard : Map String String} {executorOwners : Map String cache.ShardOwner}

/-- The fetched executors are those of the cache. -/
theorem getExecutor_of_fetchExecutorMetadata
    (h : fetchExecutorMetadata order getExecutor executorByShard = .ok executorOwners) {executorID : String}
    {owner : cache.ShardOwner} (hlookup : executorOwners.lookup executorID = some owner) :
    getExecutor executorID = .ok owner := by
  revert executorID owner
  refine foldlM_ok_induction (fun _ executorOwners => ∀ {executorID owner},
    executorOwners.lookup executorID = some owner → getExecutor executorID = .ok owner) ?_ ?_ h
  · intro executorID owner hlookup
    cases hlookup
  · intro seen entry rest acc acc' _ hacc hstep executorID owner hlookup
    dsimp only at hstep
    split at hstep
    · cases hstep
      exact hacc hlookup
    · obtain ⟨fetched, hfetched, hstep⟩ := bind_eq_ok_iff.mp hstep
      cases hstep
      rw [Map.lookup_insert_eq] at hlookup
      split at hlookup
      · rename_i heq
        cases hlookup
        rw [heq]
        exact mapError_eq_ok_iff.mp hfetched
      · exact hacc hlookup

/-- A response is made for the requested shards with an owner, and no others. -/
theorem buildResults_spec {shardKeys : List String} {results : Map String (Option GetShardOwnerResponse)}
    (h : buildResults ns shardKeys executorByShard executorOwners = .ok results) :
    (∀ shardKey ∈ shardKeys, ∀ executorID, executorByShard.lookup shardKey = some executorID →
      ∃ owner, executorOwners.lookup executorID = some owner ∧
        results.lookup shardKey = some (some ⟨owner.executorID, ns, owner.metadata⟩)) ∧
      ∀ shardKey ∈ results, shardKey ∈ shardKeys ∧ shardKey ∈ executorByShard := by
  refine foldlM_ok_induction (fun seen results =>
    (∀ shardKey ∈ seen, ∀ executorID, executorByShard.lookup shardKey = some executorID →
      ∃ owner, executorOwners.lookup executorID = some owner ∧
        results.lookup shardKey = some (some ⟨owner.executorID, ns, owner.metadata⟩)) ∧
      ∀ shardKey ∈ results, shardKey ∈ seen ∧ shardKey ∈ executorByShard) ?_ ?_ h
  · exact ⟨List.forall_mem_nil _, fun shardKey hmem => absurd hmem (AList.notMem_empty _)⟩
  · rintro seen current rest acc acc' - ⟨hanswered, honly⟩ hstep
    split at hstep
    · rename_i hnone
      cases hstep
      refine ⟨fun shardKey hmem executorID hlookup => ?_, fun shardKey hmem => ?_⟩
      · rcases List.mem_append.mp hmem with hmem | hmem
        · exact hanswered shardKey hmem executorID hlookup
        · rw [List.mem_singleton.mp hmem, hnone] at hlookup
          cases hlookup
      · obtain ⟨hseen, howned⟩ := honly shardKey hmem
        exact ⟨List.mem_append_left _ hseen, howned⟩
    · rename_i currentOwner hcurrent
      split at hstep
      · cases hstep
      rename_i owner howner
      cases hstep
      refine ⟨fun shardKey hmem executorID hlookup => ?_, fun shardKey hmem => ?_⟩
      · rw [Map.lookup_insert_eq]
        split
        · rename_i heq
          rw [heq, hcurrent, Option.some_inj] at hlookup
          exact ⟨owner, hlookup ▸ howner, rfl⟩
        · rename_i hne
          have hseen := (List.mem_append.mp hmem).resolve_right fun hmem => hne (List.mem_singleton.mp hmem)
          exact hanswered shardKey hseen executorID hlookup
      · rcases (AList.mem_insert _).mp hmem with rfl | hmem
        · exact ⟨List.mem_append_right _ List.mem_cons_self, Map.mem_iff_exists_lookup.mpr ⟨_, hcurrent⟩⟩
        · obtain ⟨hseen, howned⟩ := honly shardKey hmem
          exact ⟨List.mem_append_left _ hseen, howned⟩

/-- With a cache that knows executors by their ID, a shard is answered with the
executor it was resolved to. -/
theorem respond_spec {shardKeys : List String} {drained drained' : KeySet String}
    {results : Map String (Option GetShardOwnerResponse)}
    (hcache : ∀ executorID owner, getExecutor executorID = .ok owner → owner.executorID = executorID)
    (h : respond order ns getExecutor shardKeys drained executorByShard = .ok (results, drained')) :
    drained' = drained ∧
      (∀ shardKey ∈ shardKeys, ∀ executorID, executorByShard.lookup shardKey = some executorID →
        ∃ resp, results.lookup shardKey = some (some resp) ∧ resp.owner = executorID ∧ resp.ns = ns) ∧
      ∀ shardKey ∈ results, shardKey ∈ shardKeys ∧ shardKey ∈ executorByShard := by
  obtain ⟨executorOwners, howners, h⟩ := bind_eq_ok_iff.mp h
  obtain ⟨built, hbuilt, h⟩ := bind_eq_ok_iff.mp h
  cases h
  obtain ⟨hanswered, honly⟩ := buildResults_spec hbuilt
  refine ⟨rfl, fun shardKey hmem executorID hlookup => ?_, honly⟩
  obtain ⟨owner, howner, hresult⟩ := hanswered shardKey hmem executorID hlookup
  exact ⟨_, hresult, hcache executorID owner (getExecutor_of_fetchExecutorMetadata howners howner), rfl⟩

end Responses

section Owners

variable [Float64 F] {order : RangeOrder} {cfg : loadbalancer.Config F} {now : Time} {state : NamespaceState F}
  {shardKeys : List String} {batch : Batch F}

omit [Float64 F] in
/-- The undrained shards of a batch with an owner keep that owner. -/
theorem lookup_executorByShard {shardKey executorID : String} :
    (resolveOwners order state shardKeys).executorByShard.lookup shardKey = some executorID ↔
      shardKey ∈ shardKeys ∧ shardKey ∉ state.drainedShards ∧
        (state.shardOwners order).lookup shardKey = some executorID := by
  rw [resolveOwners]
  dsimp only
  rw [Map.lookup_ofList_iff_of_unique]
  · simp only [List.mem_filterMap, List.mem_filter, decide_eq_true_eq, Option.map_eq_some_iff, Prod.mk.injEq]
    constructor
    · rintro ⟨key, ⟨hmem, hdrained⟩, owner, howner, rfl, rfl⟩
      exact ⟨hmem, hdrained, howner⟩
    · rintro ⟨hmem, hdrained, howner⟩
      exact ⟨shardKey, ⟨hmem, hdrained⟩, executorID, howner, rfl, rfl⟩
  · intro owner owner' hmem hmem'
    obtain ⟨key, -, hkey⟩ := List.mem_filterMap.mp hmem
    obtain ⟨key', -, hkey'⟩ := List.mem_filterMap.mp hmem'
    obtain ⟨found, hfound, heq⟩ := Option.map_eq_some_iff.mp hkey
    obtain ⟨found', hfound', heq'⟩ := Option.map_eq_some_iff.mp hkey'
    cases heq
    cases heq'
    rw [hfound, Option.some_inj] at hfound'
    exact hfound'

/-- The placements are exactly what has no owner yet, each once and on an
assignable executor. -/
structure Places (state : NamespaceState F) (shardKeys : List String) (placements : List Placement) : Prop where
  nodup : (placements.map Placement.shardID).Nodup
  iff : ∀ shardKey, (∃ executorID, ⟨shardKey, executorID⟩ ∈ placements) ↔
    shardKey ∈ shardKeys ∧ shardKey ∉ state.drainedShards ∧ ∀ executorID, ¬state.Stores executorID shardKey
  assignable : ∀ placement ∈ placements, state.Assignable ∅ placement.executorID

theorem places_of_planBatch (h : planBatch order cfg now state shardKeys = .ok (some batch)) :
    Places state shardKeys batch.placements := by
  obtain ⟨hplacements, -⟩ := planBatch_ok h
  obtain ⟨hnodup, hplaced, hassignable⟩ := loadbalancer.planInitialPlacement_ok hplacements
  refine ⟨hnodup, fun shardKey => ?_, hassignable⟩
  rw [← mem_toPlace, ← hplaced, List.mem_map]
  constructor
  · rintro ⟨executorID, hmem⟩
    exact ⟨_, hmem, rfl⟩
  · rintro ⟨⟨key, executorID⟩, hmem, rfl⟩
    exact ⟨executorID, hmem⟩

/-- Without a write there is nothing to place. -/
theorem places_nil (h : planBatch order cfg now state shardKeys = .ok none) : Places state shardKeys [] := by
  have hnil : (resolveOwners order state shardKeys).toPlace = [] := by
    unfold planBatch at h
    dsimp only at h
    split at h
    · assumption
    · obtain ⟨placements, -, h⟩ := bind_eq_ok_iff.mp h
      cases h
  refine ⟨List.nodup_nil, fun shardKey => ?_, List.forall_mem_nil _⟩
  rw [← mem_toPlace, hnil]
  simp

omit [Float64 F] in
/-- Putting the placements in leaves the shards with an owner alone. -/
theorem lookup_placed {placements : List Placement} (h : Places state shardKeys placements)
    {shardKey executorID : String} :
    (placements.foldl (fun executorByShard placement => executorByShard.insert placement.shardID placement.executorID)
      (resolveOwners order state shardKeys).executorByShard).lookup shardKey = some executorID ↔
    (resolveOwners order state shardKeys).executorByShard.lookup shardKey = some executorID ∨
      ⟨shardKey, executorID⟩ ∈ placements := by
  generalize hbefore : (resolveOwners order state shardKeys).executorByShard = before
  have hfold : placements.foldl
      (fun executorByShard placement => executorByShard.insert placement.shardID placement.executorID) before =
      (placements.map fun placement => (placement.shardID, placement.executorID)).foldl
        (fun executorByShard entry => executorByShard.insert entry.1 entry.2) before := by
    rw [List.foldl_map]
  have hkeys : (placements.map fun placement => (placement.shardID, placement.executorID)).map Prod.fst =
      placements.map Placement.shardID := by
    rw [List.map_map]
    rfl
  rw [hfold]
  constructor
  · intro hlookup
    rcases Map.mem_of_lookup_foldl_insert _ _ hlookup with hentry | hlookup
    · obtain ⟨placement, hmem, heq⟩ := List.mem_map.mp hentry
      cases heq
      exact .inr hmem
    · exact .inl hlookup
  · rintro (hlookup | hmem)
    · have howned : shardKey ∉ placements.map Placement.shardID := by
        intro hkey
        obtain ⟨⟨key, placed⟩, hmem, rfl⟩ := List.mem_map.mp hkey
        rw [← hbefore, lookup_executorByShard] at hlookup
        exact ((h.iff _).mp ⟨placed, hmem⟩).2.2 executorID (NamespaceState.stores_of_shardOwners hlookup.2.2)
      rw [Map.lookup_foldl_insert_of_not_mem _ _ (hkeys ▸ howned), hlookup]
    · refine Map.lookup_foldl_insert_of_mem _ _ (hkeys ▸ h.nodup) ?_
      exact List.mem_map.mpr ⟨_, hmem, rfl⟩

end Owners

section Served

/-- What a batch that is served without error means for its shards. -/
structure Served (ns : String) (state after : NamespaceState F) (changedExecutors : KeySet String)
    (shardKeys : List String) (results : Map String (Option GetShardOwnerResponse)) (drained : KeySet String) : Prop where
  /-- Every key is in exactly one of the results and the drained set. -/
  answered : ∀ shardKey ∈ shardKeys, (shardKey ∈ results ↔ shardKey ∉ drained)
  drained_eq : drained = state.drainedShards
  response : ∀ shardKey ∈ shardKeys, if shardKey ∈ drained then
      toBatchResponse ns ⟨results, drained, none⟩ shardKey = ⟨none, some (.shardDrained ns shardKey)⟩
    else ∃ resp, results.lookup shardKey = some (some resp) ∧
      toBatchResponse ns ⟨results, drained, none⟩ shardKey = ⟨some resp, none⟩
  /-- The answer is who holds the key in the state that is written, and who held
  it already if somebody did. -/
  owner : ∀ {shardKey resp}, results.lookup shardKey = some (some resp) →
    after.Stores resp.owner shardKey ∧
      ((∃ executorID, state.Stores executorID shardKey) → state.Stores resp.owner shardKey)
  placed : ∀ shardKey ∈ shardKeys, shardKey ∉ state.drainedShards → (∀ executorID, ¬state.Stores executorID shardKey) →
    ∃ executorID, state.Assignable ∅ executorID ∧ ∀ other, after.Stores other shardKey ↔ other = executorID
  /-- Owned keys, drained keys and keys that were not requested stay as they are. -/
  unmoved : ∀ shardKey, (shardKey ∉ shardKeys ∨ shardKey ∈ state.drainedShards ∨
    ∃ executorID, state.Stores executorID shardKey) →
      ∀ executorID, after.Stores executorID shardKey ↔ state.Stores executorID shardKey
  changed_iff : ∀ executorID, executorID ∈ changedExecutors ↔
    ∃ shardKey, after.Stores executorID shardKey ∧ ¬state.Stores executorID shardKey
  exclusive : ownership.Exclusive state.Stores → ownership.Exclusive after.Stores

variable {order : RangeOrder} {ns : String} {getExecutor : String → Except String cache.ShardOwner}
  {state after : NamespaceState F} {changedExecutors : KeySet String} {shardKeys : List String}
  {placements : List Placement} {executorByShard : Map String String}
  {results : Map String (Option GetShardOwnerResponse)} {drained : KeySet String}

/-- An answer for every key follows from the owners alone. -/
theorem served_of_places (hplaces : Places state shardKeys placements)
    (hafter : ∀ executorID shardKey, after.Stores executorID shardKey ↔
      state.Stores executorID shardKey ∨ ⟨shardKey, executorID⟩ ∈ placements)
    (hchanged : ∀ executorID, executorID ∈ changedExecutors ↔ ∃ shardKey, ⟨shardKey, executorID⟩ ∈ placements)
    (howners : ∀ shardKey executorID, executorByShard.lookup shardKey = some executorID ↔
      (resolveOwners order state shardKeys).executorByShard.lookup shardKey = some executorID ∨
        ⟨shardKey, executorID⟩ ∈ placements)
    (hcache : ∀ executorID owner, getExecutor executorID = .ok owner → owner.executorID = executorID)
    (h : respond order ns getExecutor shardKeys state.drainedShards executorByShard = .ok (results, drained)) :
    Served ns state after changedExecutors shardKeys results drained := by
  obtain ⟨rfl, hanswered, honly⟩ := respond_spec hcache h
  -- A requested key has an owner exactly if it is not drained.
  have howned : ∀ shardKey ∈ shardKeys, shardKey ∉ state.drainedShards →
      ∃ executorID, executorByShard.lookup shardKey = some executorID := by
    intro shardKey hmem hundrained
    by_cases hstored : ∃ executorID, state.Stores executorID shardKey
    · obtain ⟨executorID, hlookup⟩ := Map.mem_iff_exists_lookup.mp (NamespaceState.mem_shardOwners.mpr hstored)
      exact ⟨executorID, (howners _ _).mpr (.inl (lookup_executorByShard.mpr ⟨hmem, hundrained, hlookup⟩))⟩
    · obtain ⟨executorID, hplaced⟩ := (hplaces.iff shardKey).mpr ⟨hmem, hundrained, not_exists.mp hstored⟩
      exact ⟨executorID, (howners _ _).mpr (.inr hplaced)⟩
  have hundrained : ∀ {shardKey executorID}, executorByShard.lookup shardKey = some executorID →
      shardKey ∉ state.drainedShards := by
    intro shardKey executorID hlookup
    rcases (howners _ _).mp hlookup with hresolved | hplaced
    · exact (lookup_executorByShard.mp hresolved).2.1
    · exact ((hplaces.iff shardKey).mp ⟨executorID, hplaced⟩).2.1
  have hunowned : ∀ {shardKey executorID}, ⟨shardKey, executorID⟩ ∈ placements →
      shardKey ∈ shardKeys ∧ shardKey ∉ state.drainedShards ∧ ∀ executorID, ¬state.Stores executorID shardKey :=
    fun hplaced => (hplaces.iff _).mp ⟨_, hplaced⟩
  have honce := exclusive_placements hplaces.nodup
  constructor
  case answered =>
    intro shardKey hmem
    constructor
    · intro hresult
      obtain ⟨executorID, hlookup⟩ := Map.mem_iff_exists_lookup.mp (honly shardKey hresult).2
      exact hundrained hlookup
    · intro hnot
      obtain ⟨executorID, hlookup⟩ := howned shardKey hmem hnot
      obtain ⟨resp, hresult, -⟩ := hanswered shardKey hmem executorID hlookup
      exact Map.mem_iff_exists_lookup.mpr ⟨_, hresult⟩
  case drained_eq => rfl
  case response =>
    intro shardKey hmem
    split
    · rename_i hdrained
      rw [toBatchResponse]
      dsimp only
      rw [if_pos hdrained]
    · rename_i hnot
      obtain ⟨executorID, hlookup⟩ := howned shardKey hmem hnot
      obtain ⟨resp, hresult, -⟩ := hanswered shardKey hmem executorID hlookup
      refine ⟨resp, hresult, ?_⟩
      rw [toBatchResponse]
      dsimp only
      rw [if_neg hnot, hresult]
      rfl
  case owner =>
    intro shardKey resp hresult
    obtain ⟨hmem, hresolved⟩ := honly shardKey (Map.mem_iff_exists_lookup.mpr ⟨_, hresult⟩)
    obtain ⟨executorID, hlookup⟩ := Map.mem_iff_exists_lookup.mp hresolved
    obtain ⟨resp', hresult', rfl, -⟩ := hanswered shardKey hmem executorID hlookup
    rw [hresult, Option.some_inj, Option.some_inj] at hresult'
    subst hresult'
    rcases (howners _ _).mp hlookup with hresolved | hplaced
    · have hstores := NamespaceState.stores_of_shardOwners (lookup_executorByShard.mp hresolved).2.2
      exact ⟨(hafter _ _).mpr (.inl hstores), fun _ => hstores⟩
    · exact ⟨(hafter _ _).mpr (.inr hplaced), fun ⟨e, hstores⟩ => absurd hstores ((hunowned hplaced).2.2 e)⟩
  case placed =>
    intro shardKey hmem hnot hnone
    obtain ⟨executorID, hplaced⟩ := (hplaces.iff shardKey).mpr ⟨hmem, hnot, hnone⟩
    refine ⟨executorID, hplaces.assignable _ hplaced, fun other => ?_⟩
    rw [hafter]
    constructor
    · exact fun h => honce _ _ _ (h.resolve_left (hnone other)) hplaced
    · rintro rfl
      exact .inr hplaced
  case unmoved =>
    intro shardKey hcase executorID
    rw [hafter, or_iff_left]
    intro hplaced
    obtain ⟨hmem, hnot, hnone⟩ := hunowned hplaced
    rcases hcase with hother | hdrained | ⟨e, hstores⟩
    · exact hother hmem
    · exact hnot hdrained
    · exact hnone e hstores
  case changed_iff =>
    intro executorID
    rw [hchanged]
    refine exists_congr fun shardKey => ?_
    rw [hafter]
    constructor
    · exact fun hplaced => ⟨.inr hplaced, (hunowned hplaced).2.2 executorID⟩
    · exact fun ⟨h, hnot⟩ => h.resolve_left hnot
  case exclusive =>
    intro hexclusive
    refine (hexclusive.add honce ?_).mono fun e shardKey => (hafter e shardKey).mp
    exact fun _ _ hplaced => (hunowned hplaced).2.2

/-- For every snapshot, batch and balancing mode: if the attempt returns no
error, every key of the batch is served from what it wrote. -/
theorem tryAssignEphemeralBatch_served [Float64 F] (order : RangeOrder) (cfg : loadbalancer.Config F) (now : Time)
    (ns : String) (state : NamespaceState F)
    (assignShards : AssignShardsRequest F → Except executorstore.AssignShardsError Unit)
    (getExecutor : String → Except String cache.ShardOwner)
    (hcache : ∀ executorID owner, getExecutor executorID = .ok owner → owner.executorID = executorID)
    (shardKeys : List String) (results : Map String (Option GetShardOwnerResponse)) (drained : KeySet String)
    (h : (tryAssignEphemeralBatch order cfg now ns (.ok state) assignShards getExecutor shardKeys).result =
      .ok (results, drained)) :
    Served ns state
      (((tryAssignEphemeralBatch order cfg now ns (.ok state) assignShards getExecutor shardKeys).write.map
        AssignShardsRequest.newState).getD state)
      (((tryAssignEphemeralBatch order cfg now ns (.ok state) assignShards getExecutor shardKeys).write.bind
        AssignShardsRequest.changedExecutors).getD ∅) shardKeys results drained := by
  unfold tryAssignEphemeralBatch at h ⊢
  dsimp only at h ⊢
  split at h
  · cases h
  · rename_i hplan
    refine served_of_places (places_nil hplan) ?_ ?_ ?_ hcache h
    · simp
    · simp
    · simp
  · rename_i batch hplan
    split at h
    · cases h
    · obtain ⟨hplacements, hrequest⟩ := planBatch_ok hplan
      have hplaces := places_of_planBatch hplan
      refine served_of_places hplaces ?_ ?_ (fun _ _ => lookup_placed hplaces) hcache h
      · intro executorID shardKey
        dsimp only [Option.map_some, Option.getD_some]
        rw [hrequest, NamespaceState.stores_iff]
        exact mem_mergePlacements
      · intro executorID
        dsimp only [Option.bind_some]
        rw [hrequest]
        exact mem_changedExecutors.trans mem_placementsByExecutor_iff

/-- Executor `a` owns shard `1`, and shard `9` is drained. -/
def oneOwned : NamespaceState ExactFloat :=
  { NamespaceState.ofStored [("a", ⟨1, .active, ∅, ∅, none⟩), ("b", ⟨1, .active, ∅, ∅, none⟩)] [("a", ["1"])] with
    drainedShards := Map.ofList [("9", ())] }

def naiveMode : loadbalancer.Config ExactFloat :=
  ⟨.naive, .ofRat 2, ⟨0, .ofRat 1, .ofRat 1, .ofRat 1, .ofRat 1⟩⟩

/-- A batch with an owned, a repeated and a drained key. -/
def mixedBatch : Attempt ExactFloat :=
  tryAssignEphemeralBatch .stored naiveMode 5 "n" (.ok oneOwned) (fun _ => .ok ())
    (fun executorID => .ok ⟨executorID, ∅⟩) ["1", "2", "9", "2", "3"]

theorem mixedBatch_served : ∃ results drained, mixedBatch.result = .ok (results, drained) ∧
    Served "n" oneOwned ((mixedBatch.write.map AssignShardsRequest.newState).getD oneOwned)
      ((mixedBatch.write.bind AssignShardsRequest.changedExecutors).getD ∅) ["1", "2", "9", "2", "3"] results drained := by
  have hok : mixedBatch.result.isOk = true := by decide +kernel
  obtain ⟨⟨results, drained⟩, hresult⟩ := exists_ok_of_isOk hok
  refine ⟨results, drained, hresult, ?_⟩
  refine tryAssignEphemeralBatch_served .stored naiveMode 5 "n" oneOwned (fun _ => .ok ())
    (fun executorID => .ok ⟨executorID, ∅⟩) ?_ ["1", "2", "9", "2", "3"] results drained hresult
  intro executorID owner howner
  cases howner
  rfl

end Served

end ephemeralassigner
