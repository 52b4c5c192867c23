import ShardManager.Replicas.Exclusive

open golang etcd etcdkeys store executorstore transition

namespace replicas

open etcdtypes (Value Encoding)

variable {F : Type} [Encoding F] {pre ns : String}

/-- An assignment that is sent writes no record of an executor that a
`DeleteExecutors` in flight is going to delete. -/
def NoWriteToDeleted (sys : System F) : Label F → Prop
  | .send i _ =>
    match sys.pending[i]? with
    | some (.assignShards _ _ _ _ request _) => ∀ snapshot executorIDs call,
        .deleteExecutors snapshot executorIDs call ∈ sys.pending → ∀ executorID ∈ executorIDs,
          executorID ∈ request.newState.shardAssignments → isWritten request executorID = false
    | _ => True
  | _ => True

/-- The record of an executor is gone or still as it was in a snapshot. -/
def GoneOrAsRead (pre ns : String) (snapshot s : Store (Value F)) (executorID : String) : Prop :=
  s.get (assignedStateKey pre ns executorID) = none ∨
    s.get (assignedStateKey pre ns executorID) = snapshot.get (assignedStateKey pre ns executorID)

/-- What `DeleteExecutors` calls in flight are going to remove is what their
leaders read. -/
structure RemovesAsRead (pre ns : String) (sys : System F) : Prop where
  sound : Sound pre ns sys
  asRead : ∀ {snapshot executorIDs call}, .deleteExecutors snapshot executorIDs call ∈ sys.pending →
    ∀ executorID ∈ executorIDs, GoneOrAsRead pre ns snapshot sys.store executorID

theorem removesAsRead_initial : RemovesAsRead pre ns (initial : System F) where
  sound := sound_initial
  asRead h := absurd h List.not_mem_nil

theorem RemovesAsRead.effect {sys sys' : System F} {label : Label F} (hinv : RemovesAsRead pre ns sys)
    (hmeets : NoWriteToDeleted sys label) (h : Effect pre ns sys label sys') : RemovesAsRead pre ns sys' := by
  refine ⟨hinv.sound.effect h, ?_⟩
  intro snapshot executorIDs call hmem executorID he
  -- A call that was in flight before goes on as long as the step keeps its records.
  have hstep : ∀ {s' : Store (Value F)} {call' : CommitOps (Value F)},
      .deleteExecutors snapshot executorIDs call' ∈ sys.pending →
      (SlashFree executorID → s'.get (assignedStateKey pre ns executorID) = none ∨
        s'.get (assignedStateKey pre ns executorID) = sys.store.get (assignedStateKey pre ns executorID)) →
      GoneOrAsRead pre ns snapshot s' executorID := by
    intro s' call' hmem' hget
    obtain ⟨-, hids, -⟩ := hinv.sound.planned _ hmem'
    rcases hget (hids executorID he) with hnone | hsame
    · exact .inl hnone
    · unfold GoneOrAsRead
      rw [hsame]
      exact hinv.asRead hmem' executorID he
  cases h with
  | plan hplanned =>
    rcases List.mem_append.mp hmem with hmem | hmem
    · exact hinv.asRead hmem executorID he
    · have hsnapshot : snapshot = sys.store := (hplanned _ hmem).2
      rw [hsnapshot]
      exact .inr rfl
  | spare hspares hpending => exact hstep (hpending _ hmem) fun hid => .inr (hspares.kept hid id)
  | assign hsent hfollows hassigned hpending =>
    refine hstep (hpending _ hmem) fun hid => ?_
    obtain ⟨-, -, -, hplan⟩ := hinv.sound.planned _ (List.mem_of_getElem? hsent)
    rw [NoWriteToDeleted, hsent] at hmeets
    rename_i request _ _ _
    by_cases hdeleted : executorID ∈ request.executorsToDelete
    · exact .inl (hassigned.deleted hdeleted ((hasPrefix_buildExecutorKey_iff hid hid).mpr rfl))
    · exact .inr (get_eq_of_unwritten hassigned hplan.slashFree hid hdeleted
        (hmeets snapshot executorIDs call (hpending _ hmem) executorID he))
  | delete hsent hgone hsheds hpending =>
    have hget : ∀ hid : SlashFree executorID, _ := fun hid =>
      (em _).imp (hsheds.removed hid) (hsheds.kept hid)
    rcases hpending _ hmem with hmem | ⟨call', -, heq⟩
    · exact hstep hmem hget
    · cases heq
      exact hstep (List.mem_of_getElem? hsent) hget

/-- Whenever a step of any replica removes an assignment record, it removes the
very record, at the revision, that the leader planning the removal read, as
long as nothing is assigned to executors that a `DeleteExecutors` in flight is
deleting. In particular nothing assigned after the read is lost. -/
theorem removed_as_read [Float64 F] [LawfulFloat64 F] [DecidableEq F] (pre ns : String) (sys sys' : System F)
    (label : Label F) (hrun : Run (step pre ns) NoWriteToDeleted initial sys)
    (hstep : step pre ns label sys = some sys') (executorID : String) (kv : KeyValue (Value F))
    (record : etcdtypes.AssignedState) (hget : sys.store.get (assignedStateKey pre ns executorID) = some kv)
    (hrecord : kv.value = .assignedState record)
    (hremoved : sys'.store.get (assignedStateKey pre ns executorID) = none) :
    ∃ i fate p, label = .send i fate ∧ sys.pending[i]? = some p ∧
      p.snapshot.get (assignedStateKey pre ns executorID) = some kv := by
  have hinv : RemovesAsRead pre ns sys := by
    refine hrun.invariant (RemovesAsRead pre ns) ?_ removesAsRead_initial
    exact fun sys label sys' hinv hmeets hstep => hinv.effect hmeets (effect_of_step hinv.sound hstep)
  have hid : SlashFree executorID := by
    obtain ⟨e, he, heq⟩ := hinv.sound.records _ _ _ hget hrecord
    rwa [assignedStateKey_inj heq]
  cases effect_of_step hinv.sound hstep with
  | plan hplanned =>
    rw [hget] at hremoved
    cases hremoved
  | spare hspares hpending =>
    rw [hspares.kept hid id, hget] at hremoved
    cases hremoved
  | assign hsent hfollows hassigned hpending =>
    refine ⟨_, _, _, rfl, hsent, ?_⟩
    obtain ⟨hsnapshot, -, hdescribes, hplan⟩ := hinv.sound.planned _ (List.mem_of_getElem? hsent)
    rename_i request _ _ _
    have hdeleted : executorID ∈ request.executorsToDelete := by
      by_contra hdeleted
      cases hwritten : isWritten request executorID with
      | false =>
        rw [get_eq_of_unwritten hassigned hplan.slashFree hid hdeleted fun _ => hwritten, hget] at hremoved
        cases hremoved
      | true =>
        by_cases hentry : executorID ∈ request.newState.shardAssignments
        · obtain ⟨entry, hlookup⟩ := Map.mem_iff_exists_lookup.mp hentry
          rw [hassigned.written hlookup hwritten] at hremoved
          cases hremoved
        · rw [get_eq_of_unwritten hassigned hplan.slashFree hid hdeleted fun h => absurd h hentry, hget]
            at hremoved
          cases hremoved
    rw [← hget]
    exact (get_eq_of_compared hassigned hplan hdescribes hsnapshot (.inl hdeleted)).symm
  | delete hsent hgone hsheds hpending =>
    refine ⟨_, _, _, rfl, hsent, ?_⟩
    rename_i gone _ _
    have hdeleted : gone executorID := by
      by_contra hkept
      rw [hsheds.kept hid hkept, hget] at hremoved
      cases hremoved
    rcases hinv.asRead (List.mem_of_getElem? hsent) executorID (hgone hdeleted) with hnone | hsame
    · rw [hget] at hnone
      cases hnone
    · rw [← hget]
      exact hsame.symm

section Examples

open process (reporting threeShards)

/-- No `DeleteExecutors` is in flight. -/
def noDeleteInFlight (sys : System F) : Bool :=
  sys.pending.all fun
    | .deleteExecutors .. => false
    | .assignShards .. => true

omit [Encoding F] in
theorem noWriteToDeleted_of_noDeleteInFlight {sys : System F} (h : noDeleteInFlight sys = true)
    (label : Label F) : NoWriteToDeleted sys label := by
  unfold NoWriteToDeleted
  split
  · split
    · intro snapshot executorIDs call hmem
      have hfalse := List.all_eq_true.mp h _ hmem
      cases hfalse
    · trivial
  · trivial

/-- The leader holds the election key of the namespace since revision 2. -/
def leaderGuard : Guarded (Value ExactFloat) := .txn [.modRevision "/shards/orders/leader/1" 2]

/-- A rebalance by a leader whose clock says 100, when a heartbeat at 1 is stale. -/
def lateRebalance : Label ExactFloat :=
  .rebalance .stored ⟨.stored, 0, 100, 100, 100⟩ threeShards 128 leaderGuard

/-- Executor `b` is given a shard and goes silent, which the leader sees. -/
def deletedLate : List (Label ExactFloat) :=
  [.other [] [.put "/shards/orders/leader/1" (.text "host")] .delivered,
    .heartbeat .stored "b" (reporting []) .delivered, .assign .stored threeShards.loadBalancing 1 ["s"],
    .send 0 .delivered, lateRebalance]

/-- A run that meets the condition and in which a record is removed. -/
theorem deletedLate_removed_as_read :
    ∃ sys sys' : System ExactFloat, ∃ p kv,
      Run (step "/shards" "orders") NoWriteToDeleted initial sys ∧
      step "/shards" "orders" (.send 0 .delivered) sys = some sys' ∧ sys.pending[0]? = some p ∧
      Owns "/shards" "orders" sys.store "b" "s" ∧
      p.snapshot.get (assignedStateKey "/shards" "orders" "b") = some kv ∧
      sys'.store.get (assignedStateKey "/shards" "orders" "b") = none := by
  have heval : ((deletedLate.foldlM (fun sys label =>
        if noDeleteInFlight sys then step "/shards" "orders" label sys else none) initial).bind
      fun sys => (step "/shards" "orders" (.send 0 .delivered) sys).map fun sys' =>
        decide (Owns "/shards" "orders" sys.store "b" "s" ∧
          (sys'.store.get (assignedStateKey "/shards" "orders" "b")).isNone)) = some true := by
    decide +kernel
  obtain ⟨sys, hfold, heval⟩ := Option.bind_eq_some_iff.mp heval
  obtain ⟨sys', hstep, heval⟩ := Option.map_eq_some_iff.mp heval
  obtain ⟨howns, hremoved⟩ := of_decide_eq_true heval
  have hrun : Run (step "/shards" "orders") NoWriteToDeleted initial sys :=
    run_of_foldlM (fun sys _ => noDeleteInFlight sys)
      (fun _ label h => noWriteToDeleted_of_noDeleteInFlight h label) hfold
  obtain ⟨kv, record, hget, hrecord, -⟩ := id howns
  have hremoved := Option.isNone_iff_eq_none.mp hremoved
  obtain ⟨i, fate, p, heq, hp, hsnapshot⟩ :=
    removed_as_read _ _ sys sys' _ hrun hstep "b" kv record hget hrecord hremoved
  cases heq
  exact ⟨sys, sys', p, kv, hrun, hstep, hp, howns, hsnapshot, hremoved⟩

/-- The leader reads executor `b` without a record, an assigner gives it a
shard, and the leader deletes it with the shard. -/
def deletedUnread : List (Label ExactFloat) :=
  [.other [] [.put "/shards/orders/leader/1" (.text "host")] .delivered,
    .heartbeat .stored "b" (reporting []) .delivered, lateRebalance,
    .assign .stored threeShards.loadBalancing 1 ["s"], .send 1 .delivered]

theorem deletedUnread_loses_assignment :
    ∃ sys sys' : System ExactFloat, ∃ p, Reaches (step "/shards" "orders") initial sys ∧
      step "/shards" "orders" (.send 0 .delivered) sys = some sys' ∧ sys.pending[0]? = some p ∧
      Owns "/shards" "orders" sys.store "b" "s" ∧
      sys'.store.modRevision (assignedStateKey "/shards" "orders" "b") = 0 ∧
      p.snapshot.modRevision (assignedStateKey "/shards" "orders" "b") ≠
        sys.store.modRevision (assignedStateKey "/shards" "orders" "b") := by
  have heval : ((deletedUnread.foldlM (fun sys label => step "/shards" "orders" label sys) initial).bind
      fun sys => (step "/shards" "orders" (.send 0 .delivered) sys).bind fun sys' =>
        sys.pending[0]?.map fun p => decide (Owns "/shards" "orders" sys.store "b" "s" ∧
          sys'.store.modRevision (assignedStateKey "/shards" "orders" "b") = 0 ∧
          p.snapshot.modRevision (assignedStateKey "/shards" "orders" "b") ≠
            sys.store.modRevision (assignedStateKey "/shards" "orders" "b"))) = some true := by
    decide +kernel
  obtain ⟨sys, hfold, heval⟩ := Option.bind_eq_some_iff.mp heval
  obtain ⟨sys', hstep, heval⟩ := Option.bind_eq_some_iff.mp heval
  obtain ⟨p, hp, heval⟩ := Option.map_eq_some_iff.mp heval
  exact ⟨sys, sys', p, reaches_of_foldlM hfold, hstep, hp, of_decide_eq_true heval⟩

end Examples

end replicas
