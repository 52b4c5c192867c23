import ShardManager.ExecutorStore.Batches
import ShardManager.Namespaces

open golang etcd etcdkeys store chunk

namespace types

structure DrainShardsRequest where
  ns : String
  shardKeys : List String

end types

namespace handler

open etcdtypes (Value)
open executorstore (Progress Turn iterate finish maxOpsPerTxn batchSize touchAssignmentVersion DrainedAt)
open types (DrainShardsRequest)

variable {F : Type}

inductive DrainShardsError where
  | namespaceNotFound (message : String)
  | badRequest (message : String)
  | internalService (message : String)
  /-- A captured panic. -/
  | panic
deriving DecidableEq, Repr

section Model

/-- Rejects requests that storage cannot represent. -/
def validateShardKeys (shardKeys : List String) : Except DrainShardsError Unit :=
  if shardKeys = [] then .error (.badRequest "shard keys must not be empty")
  else shardKeys.forM fun shardKey =>
    if shardKey = "" ∨ '/' ∈ shardKey.toList then
      .error (.badRequest s!"invalid shard key {quote shardKey}: must be non-empty and must not contain '/'")
    else .ok ()

variable [DecidableEq F] (pre : String)

/-- `DrainShards`, with what becomes of each of its commits. It is still at it
if it has more commits than that. -/
def drainShards (registry : namespaces.Registry) (maxEtcdTxnOps : Int) (request : DrainShardsRequest)
    (fates : List Fate) (s : Store (Value F)) : Option (Except DrainShardsError Unit) × Store (Value F) :=
  match registry.get request.ns with
  | .error message => (some (.error (.namespaceNotFound message)), s)
  | .ok _ =>
    match validateShardKeys request.shardKeys with
    | .error err => (some (.error err), s)
    | .ok () =>
      match executorstore.drainShards pre request.ns maxEtcdTxnOps request.shardKeys with
      | .error message => (some (.error (.internalService ("failed to drain shards: drain shards: " ++ message))), s)
      | .ok progress =>
        match finish progress fates s with
        | (.running _, s) => (none, s)
        | (.returned (.ok _), s) => (some (.ok ()), s)
        | (.returned (.error .panic), s) => (some (.error .panic), s)
        | (.returned (.error err), s) =>
          (some (.error (.internalService ("failed to drain shards: drain shards: " ++ err.message))), s)

end Model

section Keys

variable {pre ns : String} {shardKeys : List String}

/-- What the handler accepts, storage can represent. -/
theorem validateShardIDs_of_validateShardKeys (h : validateShardKeys shardKeys = .ok ()) :
    0 < shardKeys.length ∧ executorstore.validateShardIDs shardKeys = .ok () ∧
      ∀ shardKey ∈ shardKeys, validateShardID shardKey = .ok () := by
  unfold validateShardKeys at h
  split at h
  · cases h
  rename_i hne
  have hvalid : ∀ shardKey ∈ shardKeys, validateShardID shardKey = .ok () := by
    intro shardKey hmem
    have hkey := ok_of_forM h hmem
    split at hkey
    · cases hkey
    rename_i hrepresentable
    obtain ⟨hempty, hslash⟩ := not_or.mp hrepresentable
    rw [validateShardID, if_neg hempty, if_neg hslash]
  exact ⟨List.length_pos_iff.mpr hne, forM_ok hvalid, hvalid⟩

/-- The puts of a batch of shard keys. -/
def drainOps (pre ns : String) (shardKeys : List String) : List (Op (Value F)) :=
  shardKeys.map fun shardKey => .put (buildDrainedShardKey pre ns shardKey) (.text "")

/-- The server accepts a batch exactly if it drains no shard twice. -/
theorem accepted_drain_iff (cmps : List (Cmp (Value F))) :
    (Txn.flat cmps (drainOps pre ns shardKeys ++ [touchAssignmentVersion pre ns]) []).accepted = true ↔
      shardKeys.Nodup := by
  have hputs : putKeys (drainOps (F := F) pre ns shardKeys ++ [touchAssignmentVersion pre ns]) =
      shardKeys.map (buildDrainedShardKey pre ns) ++ [buildAssignmentVersionKey pre ns] := by
    rw [putKeys, List.filterMap_append, drainOps, List.filterMap_map]
    exact congrArg (· ++ _) (congrFun List.filterMap_eq_map' shardKeys)
  have hdeletes : deleteRanges (drainOps (F := F) pre ns shardKeys ++ [touchAssignmentVersion pre ns]) = [] := by
    simp [deleteRanges, drainOps, touchAssignmentVersion, Op.deleteRange?]
  have hversion : ∀ key ∈ shardKeys.map (buildDrainedShardKey pre ns), ∀ version ∈ [buildAssignmentVersionKey pre ns],
      key ≠ version := by
    intro key hkey version hversion
    obtain ⟨shardKey, -, rfl⟩ := List.mem_map.mp hkey
    rw [List.mem_singleton.mp hversion]
    exact undrains.Kind.key_ne_version .shards shardKey
  rw [Txn.accepted_flat_iff, and_iff_left (admissible_of_no_puts rfl)]
  constructor
  · intro hadm
    have hnodup := hadm.nodup_puts
    rw [hputs, List.nodup_append] at hnodup
    exact hnodup.1.of_map
  · intro hnodup
    refine ⟨?_, ?_⟩
    · rw [hputs, List.nodup_append]
      exact ⟨hnodup.map (undrains.Kind.key_injective pre ns .shards), List.nodup_singleton _, hversion⟩
    · rw [hdeletes]
      exact fun _ _ => List.forall_mem_nil _

variable [DecidableEq F]

/-- A batch drains its shards and nothing else. -/
theorem isSome_next_drain (hnodup : shardKeys.Nodup) (s : Store (Value F)) (shardID : String) :
    (((Txn.flat [] (drainOps pre ns shardKeys ++ [touchAssignmentVersion pre ns]) []).next s).get
        (buildDrainedShardKey pre ns shardID)).isSome = true ↔
      (s.get (buildDrainedShardKey pre ns shardID)).isSome = true ∨ shardID ∈ shardKeys := by
  have haccepted : (Txn.flat [] (drainOps (F := F) pre ns shardKeys ++ [touchAssignmentVersion pre ns]) []).accepted =
      true := (accepted_drain_iff []).mpr hnodup
  have happlied := Txn.applied_of_accepted haccepted s
  by_cases hmem : shardID ∈ shardKeys
  · have hput : Op.put (buildDrainedShardKey pre ns shardID) (.text "") ∈
        drainOps (F := F) pre ns shardKeys ++ [touchAssignmentVersion pre ns] :=
      List.mem_append_left _ (List.mem_map.mpr ⟨shardID, hmem, rfl⟩)
    rw [happlied.get_of_put hput]
    simp [hmem]
  · rw [happlied.get_of_not_touches]
    · simp [hmem]
    · intro htouch
      obtain ⟨op, hop, htouch⟩ := htouch.exists_mem
      rcases List.mem_append.mp hop with hop | hop
      · obtain ⟨other, hother, rfl⟩ := List.mem_map.mp hop
        exact hmem (undrains.Kind.key_injective pre ns .shards (touches_put_iff.mp htouch) ▸ hother)
      · rw [List.mem_singleton.mp hop] at htouch
        exact undrains.Kind.key_ne_version .shards shardID (touches_put_iff.mp htouch)

end Keys

section Call

variable [DecidableEq F] {pre : String} {registry : namespaces.Registry} {maxEtcdTxnOps : Int}
  {request : DrainShardsRequest} {ns : config.Namespace}

/-- A request that gets to storage succeeds if storage does. -/
theorem drainShards_of_finish (hregistered : registry.get request.ns = .ok ns)
    (haccepted : validateShardKeys request.shardKeys = .ok ()) {progress : Progress (Value F)}
    (hprogress : executorstore.drainShards pre request.ns maxEtcdTxnOps request.shardKeys = .ok progress)
    {fates : List Fate} {s s' : Store (Value F)} {responses : List (TxnResponse (Value F))}
    (hfinish : finish progress fates s = (.returned (.ok responses), s')) :
    drainShards pre registry maxEtcdTxnOps request fates s = (some (.ok ()), s') := by
  unfold drainShards
  rw [hregistered]
  dsimp only
  rw [haccepted]
  dsimp only
  rw [hprogress]
  dsimp only
  rw [hfinish]

/-- And only if it does. -/
theorem drainShards_ne_ok_of_finish (hregistered : registry.get request.ns = .ok ns)
    (haccepted : validateShardKeys request.shardKeys = .ok ()) {progress : Progress (Value F)}
    (hprogress : executorstore.drainShards pre request.ns maxEtcdTxnOps request.shardKeys = .ok progress)
    {fates : List Fate} {s : Store (Value F)} {e : executorstore.CommitOpsError}
    (hfinish : (finish progress fates s).1 = .returned (.error e)) :
    (drainShards pre registry maxEtcdTxnOps request fates s).1 ≠ some (.ok ()) := by
  rcases hresult : finish progress fates s with ⟨result, s'⟩
  rw [hresult] at hfinish
  obtain rfl : result = .returned (.error e) := hfinish
  unfold drainShards
  rw [hregistered]
  dsimp only
  rw [haccepted]
  dsimp only
  rw [hprogress]
  dsimp only
  rw [hresult]
  cases e <;> simp

end Call

/-- What a drain is for. -/
structure Drains (F : Type) [DecidableEq F] (pre : String) (registry : namespaces.Registry) (maxEtcdTxnOps : Int)
    (request : DrainShardsRequest) : Prop where
  /-- The server accepts every transaction, whatever becomes of it. -/
  accepted : ∀ (progress : Progress (Value F)) (turns : List (Turn (Value F))),
    executorstore.drainShards pre request.ns maxEtcdTxnOps request.shardKeys = .ok progress →
    ∀ iteration ∈ (iterate progress turns).1, ∀ txn ∈ iteration.txn, txn.accepted = true
  /-- While the store can be reached, the call succeeds, and what is drained
  afterwards is what was drained and what was asked for. -/
  drained : ∀ s : Store (Value F), ∃ s', drainShards pre registry maxEtcdTxnOps request
      (List.replicate request.shardKeys.length .delivered) s = (some (.ok ()), s') ∧
    ∀ shardID, DrainedAt pre request.ns s' shardID ↔ DrainedAt pre request.ns s shardID ∨ shardID ∈ request.shardKeys

/-- How many shards a transaction may drain, in 64 bits: the leadership
condition and the assignment version take a slot each. -/
def drainLimit (maxEtcdTxnOps : Int) : Int := max 1 (int64 (maxEtcdTxnOps - 2))

/-- How many shards go into each transaction. -/
def drainBatch (maxEtcdTxnOps : Int) (shardKeys : List String) : Nat :=
  (evenSize shardKeys.length (drainLimit maxEtcdTxnOps)).toNat

section Batches

variable {pre ns : String} {maxEtcdTxnOps : Int} {shardKeys : List String}

theorem maxOpsPerTxn_touch : maxOpsPerTxn maxEtcdTxnOps [touchAssignmentVersion (F := F) pre ns] =
    drainLimit maxEtcdTxnOps := by
  have hsub : maxEtcdTxnOps - executorstore.guardOpOverhead -
      ([touchAssignmentVersion (F := F) pre ns].length : Int) = maxEtcdTxnOps - 2 := by
    rw [List.length_singleton, executorstore.guardOpOverhead]
    omega
  unfold maxOpsPerTxn drainLimit
  rw [hsub]
  dsimp only
  split <;> omega

theorem drainShards_eq (hvalid : executorstore.validateShardIDs shardKeys = .ok ()) :
    executorstore.drainShards pre ns maxEtcdTxnOps shardKeys = .ok (executorstore.commitOps maxEtcdTxnOps
      (drainOps (F := F) pre ns shardKeys) executorstore.nopGuard [touchAssignmentVersion pre ns]) := by
  rw [executorstore.drainShards, hvalid]
  rfl

/-- Without an overflow the shards are drained batch by batch. -/
theorem exists_call (F : Type) (pre ns : String) (hpos : 0 < shardKeys.length) (hlength : shardKeys.length < 2 ^ 62)
    (hvalid : executorstore.validateShardIDs shardKeys = .ok ())
    (hsum : shardKeys.length + drainLimit maxEtcdTxnOps ≤ 2 ^ 63) :
    0 < drainBatch maxEtcdTxnOps shardKeys ∧ ∃ call : executorstore.CommitOps (Value F),
      executorstore.drainShards pre ns maxEtcdTxnOps shardKeys = .ok (.running call) ∧
      call.At (drainBatch maxEtcdTxnOps shardKeys) 0 ∧
      chunks (drainBatch maxEtcdTxnOps shardKeys) (call.ops.drop 0) =
        (chunks (drainBatch maxEtcdTxnOps shardKeys) shardKeys).map (drainOps pre ns) ∧
      call.extraOps = [touchAssignmentVersion pre ns] ∧ call.guard = .txn [] := by
  have hops : (drainOps (F := F) pre ns shardKeys).length = shardKeys.length := List.length_map _
  have hbatch : (evenSize (drainOps (F := F) pre ns shardKeys).length
      (maxOpsPerTxn maxEtcdTxnOps [touchAssignmentVersion (F := F) pre ns])).toNat =
        drainBatch maxEtcdTxnOps shardKeys := by
    rw [hops, maxOpsPerTxn_touch, drainBatch]
  have hsize : batchSize maxEtcdTxnOps (drainOps (F := F) pre ns shardKeys) [touchAssignmentVersion pre ns] =
      some (drainBatch maxEtcdTxnOps shardKeys : Int) := by
    rw [executorstore.batchSize_eq (by omega) (by omega) (by rwa [hops, maxOpsPerTxn_touch]), hbatch]
  have hsizePos : 0 < drainBatch maxEtcdTxnOps shardKeys := by
    rw [← hbatch]
    exact executorstore.toNat_evenSize_pos (by omega)
  obtain ⟨call, hcall, hat, hcallOps, hextra, hguard, -⟩ :=
    executorstore.commitOps_at executorstore.nopGuard (by omega) hsizePos hsize
  refine ⟨hsizePos, call, ?_, hat, ?_, hextra, hguard⟩
  · rw [drainShards_eq hvalid, hcall]
  · rw [hcallOps, List.drop_zero, drainOps, chunks_map hsizePos]
    rfl

/-- An overflow is a panic before anything is drained. -/
theorem drainShards_panics (hpos : 0 < shardKeys.length) (hlength : shardKeys.length < 2 ^ 62)
    (hvalid : executorstore.validateShardIDs shardKeys = .ok ())
    (hsum : ¬(shardKeys.length + drainLimit maxEtcdTxnOps ≤ 2 ^ 63)) :
    executorstore.drainShards (F := F) pre ns maxEtcdTxnOps shardKeys = .ok (.returned (.error .panic)) := by
  have hops : (drainOps (F := F) pre ns shardKeys).length = shardKeys.length := List.length_map _
  have hnone : batchSize maxEtcdTxnOps (drainOps (F := F) pre ns shardKeys) [touchAssignmentVersion pre ns] = none := by
    refine executorstore.batchSize_eq_none (by omega) ?_
    rw [hops, maxOpsPerTxn_touch]
    omega
  rw [drainShards_eq hvalid, executorstore.commitOps_panics _ (by omega) hnone]

/-- The batches drain what they name, one after the other. -/
theorem isSome_applyBatches [DecidableEq F] {batches : List (List String)} (hnodup : ∀ batch ∈ batches, batch.Nodup)
    (s : Store (Value F)) (shardID : String) :
    ((executorstore.applyBatches [touchAssignmentVersion pre ns] (batches.map (drainOps pre ns)) s).get
        (buildDrainedShardKey pre ns shardID)).isSome = true ↔
      (s.get (buildDrainedShardKey pre ns shardID)).isSome = true ∨ shardID ∈ batches.flatten := by
  induction batches generalizing s with
  | nil => simp [executorstore.applyBatches]
  | cons batch batches ih =>
    obtain ⟨hfirst, hrest⟩ := List.forall_mem_cons.mp hnodup
    rw [List.flatten_cons, List.mem_append, ← or_assoc, ← isSome_next_drain hfirst s shardID]
    exact ih hrest _

end Batches

/-- A drain does what it is for exactly if no transaction drains a shard twice,
and the limit does not make the count of transactions overflow. -/
theorem drainShards_total_iff (F : Type) [DecidableEq F] (pre : String) (registry : namespaces.Registry)
    (maxEtcdTxnOps : Int) (request : DrainShardsRequest) {ns : config.Namespace}
    (hregistered : registry.get request.ns = .ok ns) (haccepted : validateShardKeys request.shardKeys = .ok ())
    (hlength : request.shardKeys.length < 2 ^ 62) :
    Drains F pre registry maxEtcdTxnOps request ↔
      request.shardKeys.length + drainLimit maxEtcdTxnOps ≤ 2 ^ 63 ∧
        ∀ p q shardKey, p < q →
          p / drainBatch maxEtcdTxnOps request.shardKeys = q / drainBatch maxEtcdTxnOps request.shardKeys →
          request.shardKeys[p]? = some shardKey → request.shardKeys[q]? ≠ some shardKey := by
  obtain ⟨hpos, hvalidIDs, hvalid⟩ := validateShardIDs_of_validateShardKeys haccepted
  constructor
  · intro hdrains
    obtain ⟨s', hdrain, -⟩ := hdrains.drained .empty
    have hsucceeds : ∀ {progress : Progress (Value F)} {e}, executorstore.drainShards pre request.ns maxEtcdTxnOps
        request.shardKeys = .ok progress →
        (finish progress (List.replicate request.shardKeys.length .delivered) .empty).1 ≠ .returned (.error e) :=
      fun hprogress hfinish => drainShards_ne_ok_of_finish hregistered haccepted hprogress hfinish
        (congrArg Prod.fst hdrain)
    have hsum : request.shardKeys.length + drainLimit maxEtcdTxnOps ≤ 2 ^ 63 := by
      by_contra hsum
      have hfinish := executorstore.finish_returned (V := Value F) (.error .panic)
        (List.replicate request.shardKeys.length .delivered) .empty
      exact hsucceeds (drainShards_panics hpos hlength hvalidIDs hsum) (congrArg Prod.fst hfinish)
    obtain ⟨hsize, call, hcall, hat, hchunks, hextra, hguard⟩ := exists_call F pre request.ns hpos hlength hvalidIDs hsum
    refine ⟨hsum, (nodup_chunks_iff hsize request.shardKeys).mp fun batch hbatch => ?_⟩
    have hdelivered := executorstore.finish_delivered hat hguard (n := request.shardKeys.length)
      (by rw [hchunks, List.length_map]; exact length_chunks_le hsize _) .empty
    rw [hchunks, hextra] at hdelivered
    rcases hdelivered with ⟨hall, -⟩ | ⟨-, e, hfinish⟩
    · exact (accepted_drain_iff []).mp (hall _ (List.mem_map_of_mem hbatch))
    · exact absurd hfinish (hsucceeds hcall)
  · rintro ⟨hsum, hdistinct⟩
    obtain ⟨hsize, call, hcall, hat, hchunks, hextra, hguard⟩ := exists_call F pre request.ns hpos hlength hvalidIDs hsum
    have hnodup := (nodup_chunks_iff hsize request.shardKeys).mpr hdistinct
    refine ⟨fun progress turns hprogress iteration hmem txn htxn => ?_, fun s => ?_⟩
    · rw [hcall] at hprogress
      cases hprogress
      obtain ⟨batch, hbatch, turn, hturn⟩ := executorstore.txn_of_mem_iterate hat hmem
      rw [hchunks] at hbatch
      obtain ⟨shardKeys, hshardKeys, rfl⟩ := List.mem_map.mp hbatch
      rw [hturn, hextra] at htxn
      unfold Turn.txn at htxn
      split at htxn
      · cases htxn
        exact (accepted_drain_iff _).mpr (hnodup shardKeys hshardKeys)
      · cases htxn
    · have hdelivered := executorstore.finish_delivered hat hguard (n := request.shardKeys.length)
        (by rw [hchunks, List.length_map]; exact length_chunks_le hsize _) s
      rw [hchunks, hextra] at hdelivered
      rcases hdelivered with ⟨-, responses, hfinish⟩ | ⟨hrejected, -⟩
      · refine ⟨_, drainShards_of_finish hregistered haccepted hcall hfinish, fun shardID => ?_⟩
        rw [DrainedAt, DrainedAt, ← Option.isSome_iff_exists, ← Option.isSome_iff_exists,
          isSome_applyBatches hnodup, flatten_chunks hsize, and_or_left]
        exact or_congr_right (and_iff_right_of_imp fun hmem => hvalid shardID hmem)
      · refine absurd (fun batch hbatch => ?_) hrejected
        obtain ⟨shardKeys, hshardKeys, rfl⟩ := List.mem_map.mp hbatch
        exact (accepted_drain_iff []).mpr (hnodup shardKeys hshardKeys)

/-- A registry with one namespace. -/
def orders : namespaces.Registry := ⟨Map.ofList [("orders", ⟨"orders", .fixed, 8⟩)]⟩

/-- Three shards, the first of them twice, in two transactions. -/
theorem repeatedApart_drains : Drains ExactFloat "/shards" orders 4 ⟨"orders", ["0", "1", "2", "0"]⟩ := by
  have hregistered : orders.get "orders" = .ok ⟨"orders", .fixed, 8⟩ := by rfl
  have hbatch : drainBatch 4 ["0", "1", "2", "0"] = 2 := by decide
  refine (drainShards_total_iff ExactFloat "/shards" orders 4 ⟨"orders", ["0", "1", "2", "0"]⟩ hregistered
    (by decide) (by decide)).mpr ⟨by decide, fun p q shardKey hlt hdiv hp hq => ?_⟩
  have hbound : q < 4 := (List.getElem?_eq_some_iff.mp hq).1
  rw [hbatch] at hdiv
  have hpairs : p = 0 ∧ q = 1 ∨ p = 2 ∧ q = 3 := by omega
  rcases hpairs with ⟨rfl, rfl⟩ | ⟨rfl, rfl⟩
  · exact absurd (hp.trans hq.symm) (by decide)
  · exact absurd (hp.trans hq.symm) (by decide)

/-- A request that repeats a shard within its first transaction fails, and
nothing is drained. -/
theorem drainShards_rejected [DecidableEq F] {pre : String} {registry : namespaces.Registry} {maxEtcdTxnOps : Int}
    (request : DrainShardsRequest) {ns : config.Namespace} (hregistered : registry.get request.ns = .ok ns)
    (haccepted : validateShardKeys request.shardKeys = .ok ()) (hlength : request.shardKeys.length < 2 ^ 62)
    (hsum : request.shardKeys.length + drainLimit maxEtcdTxnOps ≤ 2 ^ 63)
    (hrepeats : ¬(request.shardKeys.take (drainBatch maxEtcdTxnOps request.shardKeys)).Nodup) (fate : Fate)
    (fates : List Fate) (s : Store (Value F)) :
    ∃ message, drainShards pre registry maxEtcdTxnOps request (fate :: fates) s =
      (some (.error (.internalService message)), s) := by
  obtain ⟨hpos, hvalidIDs, -⟩ := validateShardIDs_of_validateShardKeys haccepted
  obtain ⟨hsize, call, hcall, hat, hchunks, hextra, hguard⟩ := exists_call F pre request.ns hpos hlength hvalidIDs hsum
  rw [hat.chunks, chunks_of_ne_nil hsize (List.length_pos_iff.mp hpos), List.map_cons, List.cons.injEq] at hchunks
  have hrejected : ¬(Txn.flat [] ((call.ops.drop 0).take (drainBatch maxEtcdTxnOps request.shardKeys) ++
      call.extraOps) []).accepted = true := by
    rw [hchunks.1, hextra, accepted_drain_iff]
    exact hrepeats
  have hfinish : finish (.running call) (fate :: fates) s = (.returned (.error (.commit .duplicateKey)), s) := by
    rw [finish, executorstore.CommitOps.commitBatch_of_duplicateKey hat hguard hrejected]
    exact executorstore.finish_returned _ _ _
  unfold drainShards
  rw [hregistered]
  dsimp only
  rw [haccepted]
  dsimp only
  rw [hcall]
  dsimp only
  rw [hfinish]
  exact ⟨_, rfl⟩

/-- One shard twice, in one transaction. -/
theorem repeatedShard_fails :
    validateShardKeys ["0", "0"] = .ok () ∧
    ∀ fates (s : Store (Value ExactFloat)), ∃ message,
      drainShards "/shards" orders 128 ⟨"orders", ["0", "0"]⟩ (.delivered :: fates) s =
        (some (.error (.internalService message)), s) := by
  have hregistered : orders.get "orders" = .ok ⟨"orders", .fixed, 8⟩ := by rfl
  refine ⟨by decide, fun fates s => ?_⟩
  exact drainShards_rejected ⟨"orders", ["0", "0"]⟩ hregistered (by decide) (by decide) (by decide) (by decide) .delivered
    fates s

end handler
