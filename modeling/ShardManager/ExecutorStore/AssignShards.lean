import ShardManager.ExecutorStore.Values

open golang etcd etcdkeys store

namespace executorstore

open etcdtypes (Value fromAssignedState)

variable {F : Type}

/-- What a guard makes of a new transaction. It can fail, return something
that is not an etcd transaction, or add conditions: a guard that used `Then`
would make the later call to it panic. -/
inductive Guarded (V : Type) where
  | error (message : String)
  | invalidTransaction
  | txn (cmps : List (Cmp V))

def nopGuard : Guarded (Value F) := .txn []

inductive AssignShardsError where
  | applyGuard (message : String)
  | invalidTransaction
  | commit (cause : CommitError)
  | guardFailed
  | emptyResponse
  | revisionsChanged (failing : List (String × Int × Int))
deriving DecidableEq, Repr

namespace AssignShardsError

/-- `errors.Is(err, store.ErrVersionConflict)`. -/
def isVersionConflict : AssignShardsError → Bool
  | .guardFailed | .revisionsChanged _ => true
  | _ => false

def message : AssignShardsError → String
  | .applyGuard message => "apply transaction guard: " ++ message
  | .invalidTransaction => "guard function returned invalid transaction type"
  | .commit cause => "commit shard assignments transaction: " ++ cause.message
  | .guardFailed => "version conflict: transaction failed, leadership may have changed"
  | .emptyResponse => "unexpected empty response from transaction"
  | .revisionsChanged failing =>
    "version conflict: transaction failed, a shard may have been concurrently assigned, " ++
      String.join (failing.map fun (key, expected, actual) =>
        "\x7b key: " ++ key ++ ", expected:" ++ toString expected ++ ", actual: " ++ toString actual ++ " \x7d")

end AssignShardsError

section Model

variable (pre ns : String)

def assignedStateKey (executorID : String) : String :=
  buildExecutorKey pre ns executorID .assignedState

/-- Moves the assignment version when committed with a change spectators can see. -/
def touchAssignmentVersion : Op (Value F) :=
  .put (buildAssignmentVersionKey pre ns) (.text "\x7b\x7d")

def isWritten (request : AssignShardsRequest F) (executorID : String) : Bool :=
  match request.changedExecutors with
  | none => true
  | some changed => decide (executorID ∈ changed)

/-- The revisions a request expects, deletions first. -/
def expectedRevisions (order : RangeOrder) (request : AssignShardsRequest F) : List (String × Int) :=
  order.range "ExecutorsToDelete" request.executorsToDelete ++
    (order.range "ShardAssignments" request.newState.shardAssignments).map
      fun (executorID, state) => (executorID, state.modRevision)

def comparisons (order : RangeOrder) (request : AssignShardsRequest F) : List (Cmp (Value F)) :=
  (expectedRevisions order request).map fun (executorID, revision) =>
    .modRevision (assignedStateKey pre ns executorID) revision

/-- Deletes whole executors, then writes the changed records. -/
def assignmentOps (order : RangeOrder) (request : AssignShardsRequest F) : List (Op (Value F)) :=
  (order.rangeKeys "ExecutorsToDelete" request.executorsToDelete).map
      (fun executorID => .delete (.withPrefix (buildExecutorIDPrefix pre ns executorID))) ++
    ((order.range "ShardAssignments" request.newState.shardAssignments).filter
      fun (executorID, _) => isWritten request executorID).map
        fun (executorID, state) =>
          .put (assignedStateKey pre ns executorID) (.assignedState (fromAssignedState state))

/-- Reads the compared records, to tell which comparison failed. -/
def opsElse (order : RangeOrder) (request : AssignShardsRequest F) : List (Op (Value F)) :=
  (expectedRevisions order request).map fun (executorID, _) =>
    .get (.key (assignedStateKey pre ns executorID))

/-- The leadership conditions around the revision comparisons. -/
def assignShardsTxn (order : RangeOrder) (request : AssignShardsRequest F)
    (guard : List (Cmp (Value F))) : Txn (Value F) where
  cmps := guard
  thens := [.txn (comparisons pre ns order request)
    (assignmentOps pre ns order request ++ [touchAssignmentVersion pre ns]) (opsElse pre ns order request)]
  elses := []

/-- The revisions in the first response of the failed branch that differ. -/
def failingRevisions (order : RangeOrder) (request : AssignShardsRequest F)
    (responses : List (OpResponse (Value F))) : List (String × Int × Int) :=
  let comparisonMaps : Map String Int := Map.ofList ((expectedRevisions order request).map
    fun (executorID, revision) => (assignedStateKey pre ns executorID, revision))
  match responses.head? with
  | some (.range kvs) => kvs.filterMap fun (key, kv) =>
      match comparisonMaps.lookup key with
      | some expected => if expected = kv.modRevision then none else some (key, expected, kv.modRevision)
      | none => some (key, 0, kv.modRevision)
  | _ => []

def checkAssignShardsResponse (order : RangeOrder) (request : AssignShardsRequest F)
    (response : TxnResponse (Value F)) : Except AssignShardsError Unit :=
  if !response.succeeded then .error .guardFailed
  else match response.responses.head? with
    | none => .error .emptyResponse
    | some (.txn true _) => .ok ()
    | some (.txn false responses) => .error (.revisionsChanged (failingRevisions pre ns order request responses))
    -- The only operation is the nested transaction, so there is no other response.
    | some (.op _) => .error .emptyResponse

variable [DecidableEq F]

def assignShards (order : RangeOrder) (request : AssignShardsRequest F) (guard : Guarded (Value F))
    (fate : Fate) (s : Store (Value F)) : Except AssignShardsError Unit × Store (Value F) :=
  if assignmentOps pre ns order request = [] then (.ok (), s)
  else match guard with
    | .error message => (.error (.applyGuard message), s)
    | .invalidTransaction => (.error .invalidTransaction, s)
    | .txn cmps =>
      match (assignShardsTxn pre ns order request cmps).send fate s with
      | (.error cause, s) => (.error (.commit cause), s)
      | (.ok response, s) => (checkAssignShardsResponse pre ns order request response, s)

end Model

section Spec

variable {pre ns : String} {order : RangeOrder} {request : AssignShardsRequest F}

/-- The request deletes an executor or writes a record. -/
def HasOperations (request : AssignShardsRequest F) : Prop :=
  (∃ executorID, executorID ∈ request.executorsToDelete) ∨
    ∃ executorID, executorID ∈ request.newState.shardAssignments ∧ isWritten request executorID = true

/-- The effect of a request on a store: the revisions it carries were current,
deleted executors are gone, written records and the assignment version are put
by this transaction, and nothing else moved. -/
structure Assigned (pre ns : String) (request : AssignShardsRequest F) (s s' : Store (Value F)) : Prop where
  deleted_revision : ∀ {executorID revision}, request.executorsToDelete.lookup executorID = some revision →
    s.modRevision (assignedStateKey pre ns executorID) = revision
  state_revision : ∀ {executorID state}, request.newState.shardAssignments.lookup executorID = some state →
    s.modRevision (assignedStateKey pre ns executorID) = state.modRevision
  revision : s'.revision = s.revision + 1
  deleted : ∀ {executorID key}, executorID ∈ request.executorsToDelete →
    hasPrefix key (buildExecutorIDPrefix pre ns executorID) = true → s'.get key = none
  written : ∀ {executorID state}, request.newState.shardAssignments.lookup executorID = some state →
    isWritten request executorID = true →
    s'.get (assignedStateKey pre ns executorID) = some ⟨.assignedState (fromAssignedState state), s'.revision⟩
  version : s'.get (buildAssignmentVersionKey pre ns) = some ⟨.text "\x7b\x7d", s'.revision⟩
  unchanged : ∀ {key},
    (∀ executorID ∈ request.executorsToDelete,
      hasPrefix key (buildExecutorIDPrefix pre ns executorID) = false) →
    (∀ executorID ∈ request.newState.shardAssignments, isWritten request executorID = true →
      key ≠ assignedStateKey pre ns executorID) →
    key ≠ buildAssignmentVersionKey pre ns → s'.get key = s.get key

theorem put_mem_assignmentOps {key : String} {value : Value F} :
    Op.put key value ∈ assignmentOps pre ns order request ↔
      ∃ executorID state, request.newState.shardAssignments.lookup executorID = some state ∧
        isWritten request executorID = true ∧ key = assignedStateKey pre ns executorID ∧
        value = .assignedState (fromAssignedState state) := by
  simp only [assignmentOps, List.mem_append, List.mem_map, List.mem_filter, Prod.exists,
    RangeOrder.mem_range_iff, reduceCtorEq, and_false, exists_false, false_or, Op.put.injEq]
  constructor
  · rintro ⟨e, state, ⟨hlookup, hwritten⟩, rfl, rfl⟩
    exact ⟨e, state, hlookup, hwritten, rfl, rfl⟩
  · rintro ⟨e, state, hlookup, hwritten, rfl, rfl⟩
    exact ⟨e, state, ⟨hlookup, hwritten⟩, rfl, rfl⟩

theorem delete_mem_assignmentOps {range : Range} :
    Op.delete range ∈ assignmentOps pre ns order request ↔
      ∃ executorID ∈ request.executorsToDelete,
        range = .withPrefix (buildExecutorIDPrefix pre ns executorID) := by
  simp only [assignmentOps, List.mem_append, List.mem_map, RangeOrder.mem_rangeKeys, reduceCtorEq,
    and_false, exists_false, or_false, Op.delete.injEq]
  constructor
  · rintro ⟨e, he, rfl⟩
    exact ⟨e, he, rfl⟩
  · rintro ⟨e, he, rfl⟩
    exact ⟨e, he, rfl⟩

theorem assignmentOps_eq_nil_iff : assignmentOps pre ns order request = [] ↔ ¬HasOperations request := by
  rw [← not_iff_not, not_not]
  constructor
  · intro hne
    obtain ⟨op, hop⟩ := List.exists_mem_of_ne_nil _ hne
    cases op with
    | put key value =>
      obtain ⟨e, state, hlookup, hwritten, -⟩ := put_mem_assignmentOps.mp hop
      exact .inr ⟨e, Map.mem_iff_exists_lookup.mpr ⟨state, hlookup⟩, hwritten⟩
    | delete range =>
      obtain ⟨e, he, -⟩ := delete_mem_assignmentOps.mp hop
      exact .inl ⟨e, he⟩
    | get range => simp [assignmentOps] at hop
  · rintro (⟨e, he⟩ | ⟨e, he, hwritten⟩)
    · exact List.ne_nil_of_mem (delete_mem_assignmentOps.mpr ⟨e, he, rfl⟩)
    · obtain ⟨state, hlookup⟩ := Map.mem_iff_exists_lookup.mp he
      exact List.ne_nil_of_mem (put_mem_assignmentOps.mpr ⟨e, state, hlookup, hwritten, rfl, rfl⟩)

theorem mem_expectedRevisions {executorID : String} {revision : Int} :
    (executorID, revision) ∈ expectedRevisions order request ↔
      request.executorsToDelete.lookup executorID = some revision ∨
      ∃ state, request.newState.shardAssignments.lookup executorID = some state ∧
        state.modRevision = revision := by
  simp only [expectedRevisions, List.mem_append, RangeOrder.mem_range_iff, List.mem_map, Prod.exists,
    Prod.mk.injEq]
  constructor
  · rintro (h | ⟨e, state, hlookup, rfl, hrevision⟩)
    · exact .inl h
    · exact .inr ⟨state, hlookup, hrevision⟩
  · rintro (h | ⟨state, hlookup, hrevision⟩)
    · exact .inl h
    · exact .inr ⟨executorID, state, hlookup, rfl, hrevision⟩

variable [DecidableEq F]

theorem cmpsHold_comparisons {s : Store (Value F)} :
    cmpsHold s (comparisons pre ns order request) = true ↔
      ∀ executorID revision, (executorID, revision) ∈ expectedRevisions order request →
        s.modRevision (assignedStateKey pre ns executorID) = revision := by
  simp [cmpsHold, comparisons, Cmp.holds]

variable {cmps : List (Cmp (Value F))} {s : Store (Value F)}

theorem ops_assignShardsTxn : (assignShardsTxn pre ns order request cmps).ops s =
    if cmpsHold s cmps then
      (if cmpsHold s (comparisons pre ns order request) then
        assignmentOps pre ns order request ++ [touchAssignmentVersion pre ns]
      else opsElse pre ns order request)
    else [] :=
  Txn.ops_nested _ _ _ _ s

/-- A failed condition on either level leaves the store as it is. -/
theorem next_assignShardsTxn_of_failed
    (h : ¬(cmpsHold s cmps = true ∧ cmpsHold s (comparisons pre ns order request) = true)) :
    (assignShardsTxn pre ns order request cmps).next s = s := by
  apply Txn.next_eq_of_gets
  rw [ops_assignShardsTxn]
  by_cases hguard : cmpsHold s cmps = true
  · rw [if_pos hguard, if_neg (fun hcmp => h ⟨hguard, hcmp⟩)]
    intro op hop
    obtain ⟨entry, -, rfl⟩ := List.mem_map.mp hop
    exact ⟨_, rfl⟩
  · rw [if_neg hguard]
    simp

theorem assigned_next_assignShardsTxn
    (haccepted : (assignShardsTxn pre ns order request cmps).accepted = true)
    (hguard : cmpsHold s cmps = true) (hcmp : cmpsHold s (comparisons pre ns order request) = true) :
    Assigned pre ns request s ((assignShardsTxn pre ns order request cmps).next s) := by
  have hadm : Admissible ((assignShardsTxn pre ns order request cmps).ops s) :=
    Txn.admissible_ops_nested haccepted s
  have hops : (assignShardsTxn pre ns order request cmps).ops s =
      assignmentOps pre ns order request ++ [touchAssignmentVersion pre ns] := by
    rw [ops_assignShardsTxn, if_pos hguard, if_pos hcmp]
  have hversion : touchAssignmentVersion pre ns ∈ (assignShardsTxn pre ns order request cmps).ops s := by
    rw [hops]
    simp
  have hrevision := Txn.next_revision_of_put hadm hversion
  have hexpected := cmpsHold_comparisons.mp hcmp
  refine ⟨?_, ?_, hrevision, ?_, ?_, ?_, ?_⟩
  · exact fun hlookup => hexpected _ _ (mem_expectedRevisions.mpr (.inl hlookup))
  · exact fun hlookup => hexpected _ _ (mem_expectedRevisions.mpr (.inr ⟨_, hlookup, rfl⟩))
  · intro executorID key hmem hkeyPrefix
    have hdelete : Op.delete (.withPrefix (buildExecutorIDPrefix pre ns executorID)) ∈
        (assignShardsTxn pre ns order request cmps).ops s := by
      rw [hops]
      exact List.mem_append_left _ (delete_mem_assignmentOps.mpr ⟨executorID, hmem, rfl⟩)
    exact Txn.next_get_of_deleted hadm hdelete hkeyPrefix
  · intro executorID state hlookup hwritten
    rw [hrevision]
    refine Txn.next_get_of_put hadm ?_
    rw [hops]
    exact List.mem_append_left _
      (put_mem_assignmentOps.mpr ⟨executorID, state, hlookup, hwritten, rfl, rfl⟩)
  · rw [hrevision]
    exact Txn.next_get_of_put hadm hversion
  · intro key hdeleted hwritten hkey
    apply Txn.next_get_of_not_touches
    rw [hops]
    rintro (hput | ⟨range, hrange, hcontains⟩)
    · obtain ⟨value, hput⟩ := mem_putKeys.mp hput
      rcases List.mem_append.mp hput with hput | hput
      · obtain ⟨e, state, hlookup, hw, hkey', -⟩ := put_mem_assignmentOps.mp hput
        exact hwritten e (Map.mem_iff_exists_lookup.mpr ⟨state, hlookup⟩) hw hkey'
      · exact hkey (Op.put.inj (List.mem_singleton.mp hput)).1
    · rcases List.mem_append.mp (mem_deleteRanges.mp hrange) with hdelete | hdelete
      · obtain ⟨e, he, rfl⟩ := delete_mem_assignmentOps.mp hdelete
        rw [Range.contains, hdeleted e he] at hcontains
        cases hcontains
      · rw [List.mem_singleton] at hdelete
        cases hdelete

theorem checkAssignShardsResponse_eq_ok_iff :
    checkAssignShardsResponse pre ns order request ⟨cmpsHold s cmps,
        (applyRequests s ⟨s.kvs, []⟩ ((assignShardsTxn pre ns order request cmps).branch s)).2⟩ = .ok () ↔
      cmpsHold s cmps = true ∧ cmpsHold s (comparisons pre ns order request) = true := by
  unfold checkAssignShardsResponse Txn.branch assignShardsTxn
  cases hguard : cmpsHold s cmps with
  | false => simp
  | true =>
    cases hcmp : cmpsHold s (comparisons pre ns order request) <;>
      simp [applyRequests, RequestOp.apply, hcmp]

/-- Everything a call can return, with what is then known of the store. -/
theorem assignShards_cases {guard : Guarded (Value F)} {fate : Fate} {s' : Store (Value F)}
    {result : Except AssignShardsError Unit}
    (h : assignShards pre ns order request guard fate s = (result, s')) :
    (¬HasOperations request ∧ result = .ok () ∧ s' = s) ∨
    (HasOperations request ∧ ∃ e, result = .error e ∧
      (s' = s ∨ e = .commit .unknown ∧ Assigned pre ns request s s' ∧
        ∃ cmps, guard = .txn cmps ∧ cmpsHold s cmps = true)) ∨
    (HasOperations request ∧ result = .ok () ∧ Assigned pre ns request s s' ∧
      ∃ cmps, guard = .txn cmps ∧ cmpsHold s cmps = true) := by
  unfold assignShards at h
  split at h
  · rename_i hnil
    cases h
    exact .inl ⟨assignmentOps_eq_nil_iff.mp hnil, rfl, rfl⟩
  · rename_i hne
    rw [assignmentOps_eq_nil_iff, not_not] at hne
    right
    split at h
    · cases h
      exact .inl ⟨hne, _, rfl, .inl rfl⟩
    · cases h
      exact .inl ⟨hne, _, rfl, .inl rfl⟩
    · rename_i cmps
      rcases (assignShardsTxn pre ns order request cmps).send_cases fate s with
        ⟨cause, hsend⟩ | ⟨haccepted, hsend⟩ | ⟨haccepted, s'', hs'', hsend⟩
      · rw [hsend] at h
        cases h
        exact .inl ⟨hne, _, rfl, .inl rfl⟩
      · rw [hsend] at h
        simp only [Prod.mk.injEq] at h
        obtain ⟨rfl, rfl⟩ := h
        by_cases hholds : cmpsHold s cmps = true ∧ cmpsHold s (comparisons pre ns order request) = true
        · exact .inr ⟨hne, checkAssignShardsResponse_eq_ok_iff.mpr hholds,
            assigned_next_assignShardsTxn haccepted hholds.1 hholds.2, cmps, rfl, hholds.1⟩
        · left
          refine ⟨hne, ?_⟩
          cases hcheck : checkAssignShardsResponse pre ns order request ⟨cmpsHold s cmps,
              (applyRequests s ⟨s.kvs, []⟩ ((assignShardsTxn pre ns order request cmps).branch s)).2⟩ with
          | error e => exact ⟨e, hcheck, .inl (next_assignShardsTxn_of_failed hholds)⟩
          | ok u => exact absurd (checkAssignShardsResponse_eq_ok_iff.mp hcheck) hholds
      · rw [hsend] at h
        simp only [Prod.mk.injEq] at h
        obtain ⟨rfl, rfl⟩ := h
        left
        refine ⟨hne, _, rfl, ?_⟩
        rcases hs'' with rfl | rfl
        · exact .inl rfl
        · by_cases hholds : cmpsHold s cmps = true ∧ cmpsHold s (comparisons pre ns order request) = true
          · exact .inr ⟨rfl, assigned_next_assignShardsTxn haccepted hholds.1 hholds.2, cmps, rfl, hholds.1⟩
          · exact .inl (next_assignShardsTxn_of_failed hholds)

/-- A call changes the store by all its operations or not at all. -/
theorem assignShards_applied (pre ns : String) (order : RangeOrder) (request : AssignShardsRequest F)
    (guard : Guarded (Value F)) (fate : Fate) (s : Store (Value F)) :
    (assignShards pre ns order request guard fate s).2 = s ∨
      Applied (assignmentOps pre ns order request ++ [touchAssignmentVersion pre ns]) s
        (assignShards pre ns order request guard fate s).2 := by
  unfold assignShards
  split
  · exact .inl rfl
  · split
    · exact .inl rfl
    · exact .inl rfl
    · rename_i cmps
      have happlied : (assignShardsTxn pre ns order request cmps).accepted = true →
          (assignShardsTxn pre ns order request cmps).next s = s ∨
            Applied (assignmentOps pre ns order request ++ [touchAssignmentVersion pre ns]) s
              ((assignShardsTxn pre ns order request cmps).next s) := by
        intro haccepted
        by_cases hholds : cmpsHold s cmps = true ∧ cmpsHold s (comparisons pre ns order request) = true
        · have hops : (assignShardsTxn pre ns order request cmps).ops s =
              assignmentOps pre ns order request ++ [touchAssignmentVersion pre ns] := by
            rw [ops_assignShardsTxn, if_pos hholds.1, if_pos hholds.2]
          exact .inr ⟨_, Txn.admissible_ops_nested haccepted s, hops, rfl⟩
        · exact .inl (next_assignShardsTxn_of_failed hholds)
      rcases (assignShardsTxn pre ns order request cmps).send_cases fate s with
        ⟨cause, hsend⟩ | ⟨haccepted, hsend⟩ | ⟨haccepted, s', hs' | hs', hsend⟩
      all_goals rw [hsend]
      · exact .inl rfl
      · exact happlied haccepted
      · exact .inl hs'
      · rw [hs']
        exact happlied haccepted

theorem assignShards_follows (pre ns : String) (order : RangeOrder) (request : AssignShardsRequest F)
    (guard : Guarded (Value F)) (fate : Fate) (s : Store (Value F)) :
    s.Follows (assignShards pre ns order request guard fate s).2 := by
  rcases assignShards_applied pre ns order request guard fate s with hsame | happlied
  · rw [hsame]
    exact .refl s
  · exact happlied.follows

/-- `AssignShards` is all or nothing, for every store, request and guard. An
error other than an unknown commit outcome leaves the store as it was; success
means the revisions of the request were current at the commit and exactly the
requested change was made, with one revision; a request without operations
succeeds without a write. -/
theorem assignShards_spec (pre ns : String) (order : RangeOrder) (request : AssignShardsRequest F)
    (guard : Guarded (Value F)) (fate : Fate) (s : Store (Value F)) :
    (∀ e, (assignShards pre ns order request guard fate s).1 = .error e → e ≠ .commit .unknown →
      (assignShards pre ns order request guard fate s).2 = s) ∧
    ((assignShards pre ns order request guard fate s).1 = .ok () → HasOperations request →
      Assigned pre ns request s (assignShards pre ns order request guard fate s).2) ∧
    (¬HasOperations request → (assignShards pre ns order request guard fate s).1 = .ok () ∧
      (assignShards pre ns order request guard fate s).2 = s) := by
  rcases hcall : assignShards pre ns order request guard fate s with ⟨result, s'⟩
  rcases assignShards_cases hcall with ⟨hnone, rfl, rfl⟩ | ⟨hops, e, rfl, hstore⟩ | ⟨hops, rfl, hassigned, -⟩
  · exact ⟨fun e he => (by cases he), fun _ hops => absurd hops hnone, fun _ => ⟨rfl, rfl⟩⟩
  · refine ⟨fun e' he' hne => ?_, fun hok => (by cases hok), fun hnone => absurd hops hnone⟩
    cases he'
    rcases hstore with rfl | ⟨hunknown, -⟩
    · rfl
    · exact absurd hunknown hne
  · exact ⟨fun e he => (by cases he), fun _ _ => hassigned, fun hnone => absurd hops hnone⟩

end Spec

end executorstore
