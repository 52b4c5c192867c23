import ShardManager.Etcd.Removed
import ShardManager.ExecutorStore.WriteOps
import Mathlib.Algebra.Order.BigOperators.Group.List
import Mathlib.Data.List.Count

open golang etcd etcdkeys store types

namespace executorstore

open etcdtypes (Value)

variable {V F : Type}

/-- The IDs whose delete operations removed a key. The responses come in the
order of the IDs, over all batches. -/
def deletedIDs (responses : List (TxnResponse V)) (ids : List String) : Except String (List String) := do
  let (removed, _) ← responses.foldlM (fun acc resp =>
    resp.responses.foldlM (fun (removed, opIdx) opResp =>
      match ids[opIdx]? with
      | none => .error s!"got more op responses than the {ids.length} ops submitted"
      | some id => .ok (if opResp.removes then removed ++ [id] else removed, opIdx + 1)) acc) ([], 0)
  pure removed

/-- With no more responses than IDs the index stays within the IDs. -/
theorem deletedIDs_eq {responses : List (TxnResponse V)} {ids : List String}
    (h : (responses.flatMap (·.responses)).length ≤ ids.length) :
    deletedIDs responses ids = .ok (removedOf ids (responses.flatMap (·.responses))) := by
  let next : List String × Nat → Response V → Except String (List String × Nat) := fun (removed, opIdx) opResp =>
    match ids[opIdx]? with
    | none => .error s!"got more op responses than the {ids.length} ops submitted"
    | some id => .ok (if opResp.removes then removed ++ [id] else removed, opIdx + 1)
  have hflat : ∀ (responses : List (TxnResponse V)) acc,
      responses.foldlM (fun acc resp => resp.responses.foldlM next acc) acc =
        (responses.flatMap (·.responses)).foldlM next acc := by
    intro responses
    induction responses with
    | nil => exact fun _ => rfl
    | cons resp responses ih =>
      intro acc
      rw [List.foldlM_cons, List.flatMap_cons, List.foldlM_append]
      exact congrArg _ (funext ih)
  have hfold : ∀ (opResps : List (Response V)) removed opIdx, opIdx + opResps.length ≤ ids.length →
      opResps.foldlM next (removed, opIdx) =
        .ok (removed ++ removedOf (ids.drop opIdx) opResps, opIdx + opResps.length) := by
    intro opResps
    induction opResps with
    | nil => simp [pure, Except.pure]
    | cons opResp opResps ih =>
      intro removed opIdx hle
      have hlt : opIdx < ids.length := by
        rw [List.length_cons] at hle
        omega
      rw [List.foldlM_cons, List.drop_eq_getElem_cons hlt]
      simp only [next, List.getElem?_eq_getElem hlt, removedOf]
      refine (ih _ (opIdx + 1) (by rw [List.length_cons] at hle; omega)).trans ?_
      rw [List.length_cons, Nat.add_right_comm opIdx 1, Nat.add_assoc opIdx]
      split
      · rw [List.append_assoc, List.singleton_append]
      · rfl
  unfold deletedIDs
  rw [hflat, hfold _ [] 0 (by simpa using h)]
  simp [bind, Except.bind, pure, Except.pure]

namespace CommitOps

variable [DecidableEq V]

/-- A batch whose call goes on has been answered operation by operation. -/
theorem commitBatch_answered {call : CommitOps V} {fate : Fate} {s s' : Store V} {progress : Progress V}
    (h : call.commitBatch fate s = (progress, s')) :
    (∃ e, progress = .returned (.error e)) ∨
    ∃ batch, call.batch = some batch ∧ Applied (batch ++ call.extraOps) s s' ∧
      progress = call.advance ⟨true, (applyRequests s ⟨s.kvs, []⟩ ((batch ++ call.extraOps).map .op)).2⟩ := by
  rcases commitBatch_cases h with ⟨-, hfailed⟩ | ⟨cmps, batch, hguard, hbatch, hholds, happlied, hprogress⟩
  · exact .inl hfailed
  rcases hprogress with hfailed | ⟨response, -⟩
  · exact .inl ⟨_, hfailed⟩
  unfold commitBatch at h
  rw [hguard, hbatch] at h
  dsimp only at h
  have hthen : (call.batchTxn cmps batch).branch s = (batch ++ call.extraOps).map .op := by
    rw [Txn.branch, batchTxn, Txn.flat, if_pos hholds]
  rcases (call.batchTxn cmps batch).send_cases fate s with ⟨cause, hsend⟩ | ⟨-, hsend⟩ | ⟨-, s'', -, hsend⟩
  · rw [hsend] at h
    cases h
    exact .inl ⟨_, rfl⟩
  · have hsucceeded : cmpsHold s (call.batchTxn cmps batch).cmps = true := hholds
    rw [hsend, hthen, hsucceeded] at h
    cases h
    exact .inr ⟨batch, hbatch, happlied, rfl⟩
  · rw [hsend] at h
    cases h
    exact .inl ⟨_, rfl⟩

end CommitOps

end executorstore

namespace undrains

open etcdtypes (Value Encoding)
open executorstore

variable {F : Type} {pre ns : String}

/-- What an operator puts back into service. -/
inductive Kind where
  | shards
  | hosts
deriving DecidableEq, Repr

namespace Kind

variable (pre ns : String)

def key : Kind → String → String
  | .shards, shardID => buildDrainedShardKey pre ns shardID
  | .hosts, hostname => buildDrainedHostKey pre ns hostname

/-- What is drained according to a read. -/
def drained (s : Store (Value F)) : Kind → List String
  | .shards => (parseDrainedShardKVs pre ns (s.range (.withPrefix (buildDrainedShardsPrefix pre ns)))).keys
  | .hosts => (parseDrainedHostKVs pre ns (s.range (.withPrefix (buildDrainedHostsPrefix pre ns)))).keys

/-- `UndrainShards` or `UndrainHosts` before its first batch. -/
def undrain (maxEtcdTxnOps : Int) (ids : List String) : Kind → Except String (Progress (Value F))
  | .shards => undrainShards pre ns maxEtcdTxnOps ids
  | .hosts => undrainHosts pre ns maxEtcdTxnOps ids

/-- Every error of the call begins with what it was doing. -/
def context : Kind → String
  | .shards => "undrain shards: "
  | .hosts => "undrain hosts: "

end Kind

/-- A call that was made, with what has become of it. -/
structure Undrain (F : Type) where
  kind : Kind
  ids : List String
  progress : Except String (Progress (Value F))

/-- What the call returns, once it does. -/
def Undrain.result (undrain : Undrain F) : Option (Except String (List String)) :=
  match undrain.progress with
  | .error message => some (.error (undrain.kind.context ++ message))
  | .ok (.running _) => none
  | .ok (.returned (.error e)) => some (.error (undrain.kind.context ++ e.message))
  | .ok (.returned (.ok responses)) =>
    some ((deletedIDs responses undrain.ids).mapError (undrain.kind.context ++ ·))

/-- Something went from drained to not drained by a batch of the given call. -/
structure Removal where
  call : Nat
  kind : Kind
  id : String
deriving DecidableEq, Repr

/-- All undrain calls ever made, besides the other operations of the namespace,
and what their batches removed. -/
structure System (F : Type) where
  writers : Writers F
  calls : List (Undrain F)
  removals : List Removal

inductive Label (F : Type) where
  | undrain (kind : Kind) (maxEtcdTxnOps : Int) (ids : List String)
  /-- The next batch of an undrain call. -/
  | batch (call : Nat) (fate : Fate)
  /-- Any other operation: drains, resets, heartbeats, assignments. -/
  | write (label : Write F)

/-- The operation is an undrain, which here is a call of its own. -/
def isUndrain : Write F → Bool
  | .undrainShards .. | .undrainHosts .. => true
  | _ => false

section Model

variable (pre ns : String)

/-- What was drained in the first store and is not in the second. -/
def undrained (kind : Kind) (s s' : Store (Value F)) : List String :=
  (kind.drained pre ns s).filter fun id => id ∉ kind.drained pre ns s'

variable [Float64 F] [DecidableEq F] [Encoding F]

def step : Label F → System F → Option (System F)
  | .undrain kind maxEtcdTxnOps ids, sys =>
    some { sys with calls := sys.calls ++ [⟨kind, ids, kind.undrain pre ns maxEtcdTxnOps ids⟩] }
  | .batch i fate, sys =>
    match sys.calls[i]? with
    | some ⟨kind, ids, .ok (.running call)⟩ =>
      let (progress, s) := call.commitBatch fate sys.writers.store
      some {
        writers := { sys.writers with store := s }
        calls := sys.calls.set i ⟨kind, ids, .ok progress⟩
        removals := sys.removals ++ (undrained pre ns kind sys.writers.store s).map (⟨i, kind, ·⟩) }
    | _ => none
  | .write label, sys =>
    if isUndrain label then none
    else (write pre ns label sys.writers).map fun writers => { sys with writers }

/-- No call has been made yet. -/
def initial (s : Store (Value F)) : System F := ⟨⟨s, []⟩, [], []⟩

end Model

section Keys

theorem Kind.key_injective (pre ns : String) (kind : Kind) : Function.Injective (kind.key pre ns) := by
  intro id id' h
  cases kind
  all_goals
    have hlist := congrArg String.toList h
    simp only [Kind.key, buildDrainedShardKey, buildDrainedHostKey, String.toList_append, List.append_cancel_left_eq]
      at hlist
    exact String.toList_inj.mp hlist

/-- The version that every batch of `UndrainShards` moves is no drained key. -/
theorem Kind.key_ne_version (kind : Kind) (id : String) : kind.key pre ns id ≠ buildAssignmentVersionKey pre ns := by
  cases kind with
  | shards => exact assignmentVersionKey_ne_of_dir "drained_shards/" (by decide) (hasPrefix_append _ _)
  | hosts => exact assignmentVersionKey_ne_of_dir "drained_hosts/" (by decide) (hasPrefix_append _ _)

/-- The IDs that pass the call's validation. -/
def Kind.Valid : Kind → String → Prop
  | .shards, shardID => validateShardID shardID = .ok ()
  | .hosts, host => hostname.validate host = .ok ()

theorem Kind.mem_drained_iff {kind : Kind} {s : Store (Value F)} {id : String} :
    id ∈ kind.drained pre ns s ↔ kind.Valid id ∧ (s.get (kind.key pre ns id)).isSome = true := by
  rw [Option.isSome_iff_exists]
  cases kind with
  | shards => exact AList.mem_keys.symm.trans mem_parseDrainedShardKVs_range
  | hosts => exact AList.mem_keys.symm.trans mem_parseDrainedHostKVs_range

theorem Kind.nodup_drained (kind : Kind) (s : Store (Value F)) : (kind.drained pre ns s).Nodup := by
  cases kind
  all_goals exact AList.keys_nodup _

end Keys

section Calls

/-- The call deletes the keys of its IDs and nothing else. -/
structure Deletes (pre ns : String) (kind : Kind) (ids : List String) (call : CommitOps (Value F)) : Prop where
  ops : call.ops = ids.map fun id => .delete (.key (kind.key pre ns id))
  extraOps : ∀ op ∈ call.extraOps, op = touchAssignmentVersion pre ns
  valid : ∀ id ∈ ids, kind.Valid id

/-- Both calls validate their IDs and then delete the keys one by one. -/
theorem commitOps_of_undrain {kind : Kind} {maxEtcdTxnOps : Int} {ids : List String} {progress : Progress (Value F)}
    (h : kind.undrain pre ns maxEtcdTxnOps ids = .ok progress) :
    (∀ id ∈ ids, kind.Valid id) ∧ ∃ extraOps, (∀ op ∈ extraOps, op = touchAssignmentVersion pre ns) ∧
      progress = commitOps maxEtcdTxnOps (ids.map fun id => .delete (.key (kind.key pre ns id))) nopGuard extraOps := by
  cases kind with
  | shards =>
    obtain ⟨_, hvalid, hcommit⟩ := bind_eq_ok_iff.mp h
    exact ⟨fun id hid => ok_of_forM hvalid hid, _, List.forall_mem_singleton.mpr rfl, (Except.ok.inj hcommit).symm⟩
  | hosts =>
    obtain ⟨_, hvalid, hcommit⟩ := bind_eq_ok_iff.mp h
    exact ⟨fun id hid => ok_of_forM hvalid hid, _, List.forall_mem_nil _, (Except.ok.inj hcommit).symm⟩

/-- A transaction that deletes the keys of some IDs takes exactly those that
were drained out of the drained ones. -/
theorem count_undrained [DecidableEq F] {kind : Kind} {ids : List String} {extraOps : List (Op (Value F))}
    {s s' : Store (Value F)} (hvalid : ∀ id ∈ ids, kind.Valid id)
    (hextra : ∀ op ∈ extraOps, op = touchAssignmentVersion pre ns)
    (happlied : Applied (ids.map (fun id => .delete (.key (kind.key pre ns id))) ++ extraOps) s s') (id : String) :
    (undrained pre ns kind s s').count id = if id ∈ ids ∧ (s.get (kind.key pre ns id)).isSome then 1 else 0 := by
  rw [undrained, ((kind.nodup_drained s).filter _).count]
  refine if_congr ?_ rfl rfl
  rw [List.mem_filter, decide_eq_true_iff, Kind.mem_drained_iff, Kind.mem_drained_iff]
  constructor
  · rintro ⟨⟨hid, hget⟩, hgone⟩
    refine ⟨?_, hget⟩
    by_contra hmem
    refine hgone ⟨hid, ?_⟩
    rw [happlied.get_of_not_touches, hget]
    intro htouch
    obtain ⟨op, hop, htouch⟩ := htouch.exists_mem
    rcases List.mem_append.mp hop with hop | hop
    · obtain ⟨other, hother, rfl⟩ := List.mem_map.mp hop
      have hkey := of_decide_eq_true (touches_delete_iff.mp htouch)
      rw [kind.key_injective pre ns hkey] at hmem
      exact hmem hother
    · rw [hextra op hop] at htouch
      exact kind.key_ne_version id (touches_put_iff.mp htouch)
  · rintro ⟨hmem, hget⟩
    refine ⟨⟨hvalid id hmem, hget⟩, fun ⟨_, hleft⟩ => ?_⟩
    have hdelete : Op.delete (.key (kind.key pre ns id)) ∈
        ids.map (fun id => .delete (.key (kind.key pre ns id))) ++ extraOps :=
      List.mem_append_left _ (List.mem_map.mpr ⟨id, hmem, rfl⟩)
    rw [happlied.get_of_deleted hdelete (by simp [Range.contains])] at hleft
    cases hleft

/-- The responses received so far, over all batches. -/
abbrev answered (responses : List (TxnResponse (Value F))) : List (Response (Value F)) :=
  responses.flatMap (·.responses)

/-- The responses so far report exactly what the call has removed so far. -/
structure Accounted (i : Nat) (kind : Kind) (ids : List String) (removals : List Removal)
    (responses : List (TxnResponse (Value F))) : Prop where
  length_le : (answered responses).length ≤ ids.length
  count : ∀ id, (removedOf ids (answered responses)).count id = removals.count ⟨i, kind, id⟩

/-- While a call has not failed, its responses so far are accounted for. -/
def Tracked (pre ns : String) (i : Nat) (removals : List Removal) (undrain : Undrain F) : Prop :=
  match undrain.progress with
  | .ok (.running call) => Deletes pre ns undrain.kind undrain.ids call ∧
    call.i = (answered call.responses).length ∧ Accounted i undrain.kind undrain.ids removals call.responses
  | .ok (.returned (.ok responses)) => Accounted i undrain.kind undrain.ids removals responses
  | .ok (.returned (.error _)) | .error _ => True

/-- A new call has no responses, and has removed nothing. -/
theorem tracked_of_undrain {i : Nat} {kind : Kind} {maxEtcdTxnOps : Int} {ids : List String} {removals : List Removal}
    (hnone : ∀ id, removals.count ⟨i, kind, id⟩ = 0) :
    Tracked pre ns i removals (⟨kind, ids, kind.undrain pre ns maxEtcdTxnOps ids⟩ : Undrain F) := by
  have hfresh : Accounted i kind ids removals ([] : List (TxnResponse (Value F))) :=
    ⟨by simp [answered], fun id => by simp [answered, hnone]⟩
  cases hundrain : (kind.undrain pre ns maxEtcdTxnOps ids : Except String (Progress (Value F))) with
  | error message => trivial
  | ok progress =>
    obtain ⟨hvalid, extraOps, hextra, rfl⟩ := commitOps_of_undrain hundrain
    unfold commitOps
    split
    · exact hfresh
    · split
      · trivial
      · exact ⟨⟨rfl, hextra, hvalid⟩, rfl, hfresh⟩

/-- A batch is reported operation by operation as what it removed. -/
theorem tracked_of_commitBatch [DecidableEq F] {i : Nat} {kind : Kind} {ids : List String} {call : CommitOps (Value F)}
    {removals : List Removal} {fate : Fate} {s s' : Store (Value F)} {progress : Progress (Value F)}
    (h : Tracked pre ns i removals ⟨kind, ids, .ok (.running call)⟩)
    (hcommit : call.commitBatch fate s = (progress, s')) :
    Tracked pre ns i (removals ++ (undrained pre ns kind s s').map (⟨i, kind, ·⟩)) ⟨kind, ids, .ok progress⟩ := by
  obtain ⟨hdeletes, hi, haccounted⟩ := h
  rcases CommitOps.commitBatch_answered hcommit with ⟨e, rfl⟩ | ⟨batch, hbatch, happlied, rfl⟩
  · trivial
  obtain ⟨start, stop, hstart, hstop, hle, rfl⟩ := CommitOps.batch_bounds hbatch
  let batchIDs := (ids.drop start).take (stop - start)
  have hbatchOps : (call.ops.drop start).take (stop - start) =
      batchIDs.map fun id => .delete (.key (kind.key pre ns id)) := by
    rw [hdeletes.ops, ← List.map_drop, ← List.map_take]
  have hlength : call.ops.length = ids.length := by rw [hdeletes.ops, List.length_map]
  have hbatchLength : batchIDs.length = stop - start := by
    rw [List.length_take, List.length_drop]
    omega
  have hvalid : ∀ id ∈ batchIDs, kind.Valid id :=
    fun id hid => hdeletes.valid id (List.mem_of_mem_drop (List.mem_of_mem_take hid))
  rw [hbatchOps] at happlied ⊢
  obtain ⟨responses, rest, hresponses, hresponsesLength, hrestLength, hcount⟩ :=
    applyRequests_deletes (kind.key_injective pre ns) s ⟨s.kvs, []⟩ batchIDs call.extraOps
  rw [hresponses]
  have htake : (responses ++ rest).take ((responses ++ rest).length - call.extraOps.length) = responses := by
    rw [List.length_append, hrestLength, Nat.add_sub_cancel, List.take_left]
  have hanswered : answered (call.responses ++ [⟨true, responses⟩]) = answered call.responses ++ responses := by
    simp [answered]
  have hstartLength : start = (answered call.responses).length := by omega
  have hall : (answered call.responses ++ responses).length = stop := by
    rw [List.length_append, hresponsesLength, hbatchLength]
    omega
  have hnext : Accounted i kind ids (removals ++ (undrained pre ns kind s s').map (⟨i, kind, ·⟩))
      (call.responses ++ [⟨true, responses⟩]) := by
    refine ⟨?_, fun id => ?_⟩
    · rw [hanswered, hall]
      omega
    · have hnew : removedOf (ids.drop start) responses = removedOf batchIDs responses := by
        rw [← removedOf_take, hresponsesLength, hbatchLength]
      rw [hanswered, removedOf_append haccounted.length_le, List.count_append, haccounted.count, ← hstartLength, hnew,
        hcount, List.count_append, List.count_map_of_injective _ _ (fun a b hab => (Removal.mk.inj hab).2.2),
        count_undrained hvalid hdeletes.extraOps happlied]
      rfl
  unfold CommitOps.advance
  dsimp only
  rw [htake]
  split
  · rename_i hrunning
    refine ⟨⟨hdeletes.ops, hdeletes.extraOps, hdeletes.valid⟩, ?_, hnext⟩
    dsimp only
    rw [hanswered, hall]
    omega
  · exact hnext

end Calls

section Runs

variable [Float64 F] [DecidableEq F] [Encoding F]

/-- Every call is tracked, and removals belong to calls that were made. -/
structure Balanced (pre ns : String) (sys : System F) : Prop where
  calls : ∀ i undrain, sys.calls[i]? = some undrain → Tracked pre ns i sys.removals undrain
  made : ∀ removal ∈ sys.removals, removal.call < sys.calls.length

omit [Float64 F] [DecidableEq F] [Encoding F] in
/-- A call is tracked by its own removals only. -/
theorem Tracked.of_count {i : Nat} {removals removals' : List Removal} {undrain : Undrain F}
    (h : Tracked pre ns i removals undrain)
    (hcount : ∀ kind id, removals'.count ⟨i, kind, id⟩ = removals.count ⟨i, kind, id⟩) :
    Tracked pre ns i removals' undrain := by
  have haccounted : ∀ {responses : List (TxnResponse (Value F))}, Accounted i undrain.kind undrain.ids removals responses →
      Accounted i undrain.kind undrain.ids removals' responses :=
    fun h => ⟨h.length_le, fun id => (h.count id).trans (hcount _ id).symm⟩
  unfold Tracked at h ⊢
  split
  · rename_i call hprogress
    rw [hprogress] at h
    exact ⟨h.1, h.2.1, haccounted h.2.2⟩
  · rename_i responses hprogress
    rw [hprogress] at h
    exact haccounted h
  · trivial
  · trivial

theorem balanced_step {sys sys' : System F} {label : Label F} (h : Balanced pre ns sys)
    (hstep : step pre ns label sys = some sys') : Balanced pre ns sys' := by
  cases label with
  | undrain kind maxEtcdTxnOps ids =>
    cases hstep
    refine ⟨fun i undrain hcall => ?_, fun removal hmem => ?_⟩
    · rw [List.getElem?_append] at hcall
      split at hcall
      · exact h.calls i undrain hcall
      · rename_i hle
        have hnew : i = sys.calls.length := by
          have hlt := (List.getElem?_eq_some_iff.mp hcall).1
          rw [List.length_singleton] at hlt
          omega
        subst hnew
        rw [Nat.sub_self] at hcall
        cases hcall
        refine tracked_of_undrain fun id => List.count_eq_zero.mpr fun hmem => ?_
        exact absurd (h.made _ hmem) (lt_irrefl _)
    · rw [List.length_append]
      exact (h.made removal hmem).trans_le (Nat.le_add_right _ _)
  | batch i fate =>
    dsimp only [step] at hstep
    split at hstep
    · rename_i kind ids call hcall
      rcases hcommit : call.commitBatch fate sys.writers.store with ⟨progress, s'⟩
      rw [hcommit] at hstep
      cases hstep
      refine ⟨fun j undrain hundrain => ?_, ?_⟩
      · by_cases hij : i = j
        · subst hij
          rw [List.getElem?_set_self (List.getElem?_eq_some_iff.mp hcall).1] at hundrain
          cases hundrain
          exact tracked_of_commitBatch (h.calls i _ hcall) hcommit
        · rw [List.getElem?_set_ne hij] at hundrain
          refine (h.calls j undrain hundrain).of_count fun kind' id => ?_
          rw [List.count_append, Nat.add_eq_left, List.count_eq_zero]
          intro hmem
          obtain ⟨_, -, hremoval⟩ := List.mem_map.mp hmem
          exact hij (Removal.mk.inj hremoval).1
      · rw [List.length_set]
        refine List.forall_mem_append.mpr ⟨h.made, fun removal hmem => ?_⟩
        obtain ⟨_, -, rfl⟩ := List.mem_map.mp hmem
        exact (List.getElem?_eq_some_iff.mp hcall).1
    · cases hstep
  | write label =>
    dsimp only [step] at hstep
    split at hstep
    · cases hstep
    · obtain ⟨writers, -, rfl⟩ := Option.map_eq_some_iff.mp hstep
      exact ⟨h.calls, h.made⟩

/-- What a call of the kind has returned as removed. -/
def System.reported (sys : System F) (kind : Kind) (i : Nat) : List String :=
  match sys.calls[i]? with
  | some undrain =>
    match undrain.result with
    | some (.ok report) => if undrain.kind = kind then report else []
    | _ => []
  | none => []

omit [Float64 F] [DecidableEq F] [Encoding F] in
theorem Balanced.count_report {sys : System F} (h : Balanced pre ns sys) {i : Nat} {undrain : Undrain F}
    {report : List String} (hcall : sys.calls[i]? = some undrain) (hresult : undrain.result = some (.ok report))
    (id : String) : report.count id = sys.removals.count ⟨i, undrain.kind, id⟩ := by
  have htracked := h.calls i undrain hcall
  unfold Undrain.result at hresult
  split at hresult
  · cases hresult
  · cases hresult
  · cases hresult
  · rename_i responses hprogress
    rw [Tracked, hprogress] at htracked
    have hdeleted := mapError_eq_ok_iff.mp (Option.some.inj hresult)
    rw [deletedIDs_eq htracked.length_le] at hdeleted
    rw [← Except.ok.inj hdeleted, htracked.count]

/-- Counting removals call by call counts none of them twice. -/
theorem sum_count_le (removals : List Removal) (kind : Kind) (id : String) (calls : Nat) :
    ((List.range calls).map fun i => removals.count ⟨i, kind, id⟩).sum ≤
      removals.countP fun removal => removal.kind = kind ∧ removal.id = id := by
  -- Induction on the number of calls, counting only the removals of those.
  have hbelow : ((List.range calls).map fun i => removals.count ⟨i, kind, id⟩).sum ≤
      removals.countP fun removal => removal.call < calls ∧ removal.kind = kind ∧ removal.id = id := by
    induction calls with
    | zero => simp
    | succ calls ih =>
      have hsplit : removals.countP (fun removal => removal.call < calls + 1 ∧ removal.kind = kind ∧ removal.id = id) =
          removals.countP (fun removal => removal.call < calls ∧ removal.kind = kind ∧ removal.id = id) +
            removals.count ⟨calls, kind, id⟩ := by
        clear ih
        induction removals with
        | nil => rfl
        | cons removal removals ih =>
          rw [List.countP_cons, List.countP_cons, List.count_cons, ih]
          rcases removal with ⟨call, kind', id'⟩
          by_cases hcall : call = calls
          · simp [hcall]
            omega
          · have hlt : call < calls + 1 ↔ call < calls := by omega
            simp [hcall, hlt]
            omega
      rw [List.range_succ, List.map_append, List.sum_append, hsplit]
      simpa using ih
  refine hbelow.trans (List.countP_mono_left fun removal _ h => ?_)
  rw [decide_eq_true_iff] at h ⊢
  exact h.2

/-- Along every run of undrain calls in batches, among drains, resets and all
other operations of the namespace: a call that returns without error has
reported each ID as often as its batches removed it, so never more reports than
removals, and its responses always match its IDs. -/
theorem reported_of_run (pre ns : String) (s : Store (Value F)) (sys : System F)
    (hrun : transition.Reaches (step pre ns) (initial s) sys) :
    (∀ (i : Nat) (undrain : Undrain F) report, sys.calls[i]? = some undrain → undrain.result = some (.ok report) →
      ∀ id, report.count id = sys.removals.count ⟨i, undrain.kind, id⟩) ∧
    (∀ (i : Nat) (undrain : Undrain F) responses, sys.calls[i]? = some undrain → undrain.progress = .ok (.returned (.ok responses)) →
      ∃ report, undrain.result = some (.ok report)) ∧
    ∀ kind id, ((List.range sys.calls.length).map fun i => (sys.reported kind i).count id).sum ≤
      sys.removals.countP fun removal => removal.kind = kind ∧ removal.id = id := by
  have hbalanced : Balanced pre ns sys :=
    hrun.invariant (Balanced pre ns) (fun _ _ _ h _ hstep => balanced_step h hstep)
      ⟨fun _ _ hcall => (nomatch hcall), List.forall_mem_nil _⟩
  refine ⟨fun i undrain report hcall hresult id => hbalanced.count_report hcall hresult id, ?_, fun kind id => ?_⟩
  · intro i undrain responses hcall hprogress
    have htracked := hbalanced.calls i undrain hcall
    rw [Tracked, hprogress] at htracked
    refine ⟨removedOf undrain.ids (answered responses), ?_⟩
    rw [Undrain.result, hprogress]
    dsimp only
    rw [deletedIDs_eq htracked.length_le]
    rfl
  · refine le_trans (List.sum_le_sum fun i _ => ?_) (sum_count_le sys.removals kind id sys.calls.length)
    unfold System.reported
    split
    · rename_i undrain hcall
      split
      · rename_i report hresult
        split
        · rename_i hkind
          rw [hbalanced.count_report hcall hresult, hkind]
        · simp
      · simp
    · simp

/-- Two calls undrain the shards `a` and `b`. The first, in batches of one,
names `a` twice; the second commits its only batch after the first's first. -/
def bothUndrain : List (Label ExactFloat) :=
  [.write (.drainShards 128 ["a", "b"]), .write (.commitBatch 0 .delivered), .undrain .shards 2 ["a", "a", "b"],
    .undrain .shards 128 ["b", "a"], .batch 0 .delivered, .batch 1 .delivered, .batch 0 .delivered, .batch 0 .delivered]

theorem bothUndrain_reported : ∃ sys : System ExactFloat,
    transition.Reaches (step "s" "n") (initial .empty) sys ∧
    sys.calls.map Undrain.result = [some (.ok ["a"]), some (.ok ["b"])] ∧
    (∀ (i : Nat) (undrain : Undrain ExactFloat) report, sys.calls[i]? = some undrain →
      undrain.result = some (.ok report) → ∀ id, report.count id = sys.removals.count ⟨i, undrain.kind, id⟩) := by
  have hrun : (bothUndrain.foldlM (fun sys label => step "s" "n" label sys) (initial .empty)).map
      (fun sys => decide (sys.calls.map Undrain.result = [some (.ok ["a"]), some (.ok ["b"])])) = some true := by
    decide +kernel
  obtain ⟨sys, hfold, hresults⟩ := Option.map_eq_some_iff.mp hrun
  have hreach : transition.Reaches (step "s" "n") (initial .empty) sys := transition.reaches_of_foldlM hfold
  exact ⟨sys, hreach, of_decide_eq_true hresults, (reported_of_run "s" "n" .empty sys hreach).1⟩

end Runs

end undrains
