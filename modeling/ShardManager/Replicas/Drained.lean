import ShardManager.Replicas.Drains

open golang etcd etcdkeys store executorstore transition

namespace drains

open etcdtypes (Value Encoding)
open replicas (Pending Owns RecordKeys gives)

variable {F : Type} {pre ns : String} {s s' : Store (Value F)}

section Planned

/-- A planned assignment leaves the shards its planner read as drained where
they were. -/
def KeepsDrained : Pending F → Prop
  | .assignShards _ state _ _ request _ => ∀ executorID shardID, gives request executorID shardID →
      state.isShardDrained shardID = true → state.Stores executorID shardID
  | .deleteExecutors .. => True

variable [Float64 F] [LawfulFloat64 F] [DecidableEq F] [Encoding F]

omit [DecidableEq F] [Encoding F] in
theorem keepsDrained_rebalanced {choices : process.Choices} {cfg : process.Config F} {maxEtcdTxnOps : Int}
    {guard : Guarded (Value F)} {state : NamespaceState F} {p : Pending F}
    (h : p ∈ replicas.rebalanced pre ns s choices cfg maxEtcdTxnOps guard state) : KeepsDrained p := by
  unfold replicas.rebalanced at h
  split at h
  · rename_i request hdecision
    obtain rfl := List.mem_singleton.mp h
    intro executorID shardID hgives hdrained
    rw [replicas.undrained_of_leader hdecision hgives] at hdrained
    cases hdrained
  · split at h
    · obtain rfl := List.mem_singleton.mp h
      trivial
    · cases h
  · cases h
  · cases h

omit [LawfulFloat64 F] [DecidableEq F] [Encoding F] in
theorem keepsDrained_assigned {order : RangeOrder} {cfg : loadbalancer.Config F} {now : Time}
    {shardKeys : List String} {state : NamespaceState F} {p : Pending F}
    (h : p ∈ replicas.assigned s order cfg now shardKeys state) : KeepsDrained p := by
  unfold replicas.assigned at h
  split at h
  · rename_i batch hbatch
    obtain rfl := List.mem_singleton.mp h
    exact fun executorID shardID hgives hdrained => replicas.stored_of_assigner hbatch hgives hdrained
  · cases h
  · cases h

theorem keepsDrained_step {sys sys' : replicas.System F} {label : replicas.Label F}
    (hkeeps : ∀ p ∈ sys.pending, KeepsDrained p) (h : replicas.step pre ns label sys = some sys') :
    ∀ p ∈ sys'.pending, KeepsDrained p := by
  cases label with
  | heartbeat order executorID request fate =>
    cases h
    exact hkeeps
  | rebalance order choices cfg maxEtcdTxnOps guard =>
    dsimp only [replicas.step] at h
    split at h
    · cases h
    · cases h
      exact List.forall_mem_append.mpr ⟨hkeeps, fun p hp => keepsDrained_rebalanced hp⟩
  | assign order cfg now shardKeys =>
    dsimp only [replicas.step] at h
    split at h
    · cases h
    · cases h
      exact List.forall_mem_append.mpr ⟨hkeeps, fun p hp => keepsDrained_assigned hp⟩
  | send i fate =>
    dsimp only [replicas.step] at h
    split at h
    · cases h
    · rename_i p hsent
      cases h
      refine List.forall_mem_append.mpr ⟨forall_mem_eraseIdx hkeeps, ?_⟩
      cases p with
      | assignShards snapshot state origin order request guard => exact List.forall_mem_nil _
      | deleteExecutors snapshot executorIDs call =>
        dsimp only [Pending.send]
        split
        · exact List.forall_mem_singleton.mpr trivial
        · exact List.forall_mem_nil _
  | abandon i =>
    cases h
    exact forall_mem_eraseIdx hkeeps
  | other cmps ops fate =>
    dsimp only [replicas.step] at h
    split at h
    · cases h
      exact hkeeps
    · cases h

end Planned

section Recordless

/-- A step of the store that writes no assignment record. -/
def Recordless [DecidableEq F] (s s' : Store (Value F)) : Prop :=
  s' = s ∨ ∃ ops, Applied ops s s' ∧ ∀ {key value}, Op.put key value ∈ ops → ∀ record, value ≠ .assignedState record

variable [DecidableEq F]

theorem Recordless.follows (h : Recordless s s') : s.Follows s' := by
  rcases h with rfl | ⟨ops, happlied, -⟩
  · exact .refl _
  · exact happlied.follows

theorem Recordless.recordKeys (h : Recordless s s') (hkeys : RecordKeys pre ns s) : RecordKeys pre ns s' := by
  rcases h with rfl | ⟨ops, happlied, hputs⟩
  · exact hkeys
  · exact replicas.recordKeys_of_applied happlied hkeys hputs

/-- Whoever owns a shard afterwards owned it before. -/
theorem Recordless.owns_of_owns (h : Recordless s s') {executorID shardID : String}
    (howns : Owns pre ns s' executorID shardID) : Owns pre ns s executorID shardID := by
  rcases h with rfl | ⟨ops, happlied, hputs⟩
  · exact howns
  obtain ⟨kv, record, hget, hvalue, hmem⟩ := howns
  rcases happlied.get_cases (assignedStateKey pre ns executorID) with ⟨value, hput, hget'⟩ | hget' | hget'
  · rw [hget', Option.some.injEq] at hget
    subst hget
    exact absurd hvalue (hputs hput record)
  · rw [hget'] at hget
    cases hget
  · exact ⟨kv, record, hget' ▸ hget, hvalue, hmem⟩

theorem Recordless.sound [Encoding F] {planners : replicas.System F} (h : Recordless planners.store s')
    (hsound : replicas.Sound pre ns planners) : replicas.Sound pre ns { planners with store := s' } :=
  ⟨h.recordKeys hsound.records, fun p hp => (hsound.planned p hp).mono h.follows⟩

theorem recordless_commitBatch {call : CommitOps (Value F)} (hextra : call.extraOps = [touchAssignmentVersion pre ns])
    (hops : ∀ {key value}, Op.put key value ∈ call.ops → ∀ record, value ≠ .assignedState record)
    {fate : Fate} {progress : Progress (Value F)} (h : call.commitBatch fate s = (progress, s')) : Recordless s s' := by
  rcases CommitOps.commitBatch_cases h with ⟨rfl, -⟩ | ⟨cmps, batch, -, hbatch, -, happlied, -⟩
  · exact .inl rfl
  refine .inr ⟨_, happlied, ?_⟩
  intro key value hput record
  rcases List.mem_append.mp hput with hput | hput
  · exact hops (CommitOps.mem_of_mem_batch hbatch hput) record
  · rw [hextra, List.mem_singleton, touchAssignmentVersion, Op.put.injEq] at hput
    rw [hput.2]
    intro heq
    cases heq

theorem recordless_resetNamespace (fate : Fate) (s : Store (Value F)) : Recordless s (resetNamespace pre ns fate s).2 := by
  rw [resetNamespace_store]
  rcases Txn.send_flat_store [] [.delete (.withPrefix (buildNamespacePrefix pre ns)), touchAssignmentVersion pre ns]
    [] fate s with hsame | happlied
  · exact .inl hsame
  refine .inr ⟨_, happlied, ?_⟩
  intro key value hput record
  have hput' : Op.put key value = touchAssignmentVersion pre ns := by
    simpa [cmpsHold] using hput
  rw [touchAssignmentVersion, Op.put.injEq] at hput'
  rw [hput'.2]
  intro heq
  cases heq

end Recordless

section Invariant

/-- What is known of a drain in progress: the shards before its next
transaction are marked, unless they have been undrained again. -/
structure Drain.Sound (pre ns : String) (s : Store (Value F)) (drain : Drain F) : Prop where
  ops : drain.call.ops = drain.shardIDs.map fun shardID => .put (buildDrainedShardKey pre ns shardID) (.text "")
  extraOps : drain.call.extraOps = [touchAssignmentVersion pre ns]
  valid : ∀ shardID ∈ drain.shardIDs, validateShardID shardID = .ok ()
  marked : ∀ {k : Nat} {shardID}, drain.shardIDs[k]? = some shardID → (k : Int) < drain.call.i →
    shardID ∈ drain.undone ∨ isMarked pre ns s shardID = true

/-- What is known of an undrain in progress. -/
def Unmarks (pre ns : String) (call : CommitOps (Value F)) : Prop :=
  (∀ op ∈ call.ops, ∃ shardID, op = .delete (.key (buildDrainedShardKey pre ns shardID))) ∧
    call.extraOps = [touchAssignmentVersion pre ns]

structure Inv [Encoding F] (pre ns : String) (sys : System F) : Prop where
  sound : replicas.Sound pre ns sys.planners
  keeps : ∀ p ∈ sys.planners.pending, KeepsDrained p
  draining : ∀ drain ∈ sys.draining, drain.Sound pre ns sys.store
  undraining : ∀ call ∈ sys.undraining, Unmarks pre ns call
  drained : ∀ shardID ∈ sys.drained, DrainedAt pre ns sys.store shardID

namespace Drain.Sound

variable {drain : Drain F}

theorem mono (h : drain.Sound pre ns s) (hmono : ∀ shardID, isMarked pre ns s shardID = true →
    isMarked pre ns s' shardID = true) : drain.Sound pre ns s' :=
  { h with marked := fun hget hlt => (h.marked hget hlt).imp_right (hmono _) }

/-- A transaction that takes marks away adds them to those undone. -/
theorem unmark (h : drain.Sound pre ns s) (s' : Store (Value F)) :
    (drain.unmark pre ns s s').Sound pre ns s' := by
  refine ⟨h.ops, h.extraOps, h.valid, ?_⟩
  intro k shardID hget hlt
  cases hmarked : isMarked pre ns s' shardID with
  | true => exact .inr rfl
  | false =>
    left
    rcases h.marked hget hlt with hundone | hmarked'
    · exact List.mem_append_left _ hundone
    · refine List.mem_append_right _ (List.mem_filter.mpr ⟨List.mem_of_getElem? hget, ?_⟩)
      rw [hmarked', hmarked]
      rfl

theorem put_ne_record (h : drain.Sound pre ns s) {key : String} {value : Value F}
    (hput : Op.put key value ∈ drain.call.ops) (record : etcdtypes.AssignedState) :
    value ≠ .assignedState record := by
  rw [h.ops] at hput
  obtain ⟨shardID, -, heq⟩ := List.mem_map.mp hput
  cases heq
  exact nofun

variable [DecidableEq F] {fate : Fate} {progress : Progress (Value F)}

/-- A transaction of a drain takes no mark away. -/
theorem isMarked_mono (h : drain.Sound pre ns s) (hcommit : drain.call.commitBatch fate s = (progress, s'))
    {shardID : String} (hmarked : isMarked pre ns s shardID = true) : isMarked pre ns s' shardID = true := by
  rcases CommitOps.commitBatch_cases hcommit with ⟨rfl, -⟩ | ⟨cmps, batch, -, hbatch, -, happlied, -⟩
  · exact hmarked
  refine isMarked_mono_of_applied happlied ?_ hmarked
  intro range hdelete
  rcases List.mem_append.mp hdelete with hdelete | hdelete
  · have hmem := CommitOps.mem_of_mem_batch hbatch hdelete
    rw [h.ops] at hmem
    obtain ⟨shardID, -, heq⟩ := List.mem_map.mp hmem
    cases heq
  · rw [h.extraOps] at hdelete
    cases List.mem_singleton.mp hdelete

/-- A transaction of a drain marks the shards of its batch. -/
theorem marked_of_advance (h : drain.Sound pre ns s) {response : TxnResponse (Value F)}
    (hcommit : drain.call.commitBatch fate s = (drain.call.advance response, s')) {k : Nat} {shardID : String}
    (hget : drain.shardIDs[k]? = some shardID) (hlt : (k : Int) < drain.call.i + drain.call.batchSize) :
    shardID ∈ drain.undone ∨ isMarked pre ns s' shardID = true := by
  by_cases hbefore : (k : Int) < drain.call.i
  · exact (h.marked hget hbefore).imp_right (h.isMarked_mono hcommit)
  right
  rcases CommitOps.commitBatch_cases hcommit with ⟨-, e, hprogress⟩ | ⟨cmps, batch, -, hbatch, -, happlied, -⟩
  · unfold CommitOps.advance at hprogress
    dsimp only at hprogress
    split at hprogress <;> cases hprogress
  have hop : drain.call.ops[k]? = some (.put (buildDrainedShardKey pre ns shardID) (.text "")) := by
    rw [h.ops, List.getElem?_map, hget]
    rfl
  have hmem := CommitOps.mem_batch hbatch hop (by omega) hlt
  rw [isMarked, happlied.get_of_put (List.mem_append_left _ hmem)]
  rfl

theorem running (h : drain.Sound pre ns s) {call : CommitOps (Value F)}
    (hcommit : drain.call.commitBatch fate s = (.running call, s')) :
    Drain.Sound pre ns s' ⟨drain.shardIDs, call, drain.undone⟩ := by
  rcases CommitOps.commitBatch_cases hcommit with
    ⟨-, e, hprogress⟩ | ⟨cmps, batch, -, -, -, -, hprogress | ⟨response, hprogress⟩⟩
  · cases hprogress
  · cases hprogress
  obtain ⟨hsame, hi, -⟩ := CommitOps.running_of_advance hprogress.symm
  refine ⟨hsame.ops.trans h.ops, hsame.extraOps.trans h.extraOps, h.valid, ?_⟩
  intro k shardID hget hlt
  rw [hprogress] at hcommit
  exact h.marked_of_advance hcommit hget (hi ▸ hlt)

/-- What a drain has drained when it returns without error is marked. -/
theorem returned (h : drain.Sound pre ns s) {responses : List (TxnResponse (Value F))}
    (hcommit : drain.call.commitBatch fate s = (.returned (.ok responses), s')) {shardID : String}
    (hmem : shardID ∈ drain.drained pre ns s') : DrainedAt pre ns s' shardID := by
  obtain ⟨hmem, hkept⟩ := List.mem_filter.mp hmem
  refine drainedAt_iff.mpr ⟨h.valid shardID hmem, ?_⟩
  rcases CommitOps.commitBatch_cases hcommit with
    ⟨-, e, hprogress⟩ | ⟨cmps, batch, -, -, -, -, hprogress | ⟨response, hprogress⟩⟩
  · cases hprogress
  · cases hprogress
  obtain ⟨k, hget⟩ := List.getElem?_of_mem hmem
  have hlt : k < drain.shardIDs.length := (List.getElem?_eq_some_iff.mp hget).1
  have hlast : (drain.shardIDs.length : Int) ≤ drain.call.i + drain.call.batchSize := by
    have hlength : drain.call.ops.length = drain.shardIDs.length := by
      rw [h.ops, List.length_map]
    rw [← hlength]
    exact CommitOps.length_le_of_advance hprogress.symm
  rw [hprogress] at hcommit
  rcases h.marked_of_advance hcommit hget (by omega) with hundone | hmarked
  · simpa [hundone] using hkept
  · exact hmarked

end Drain.Sound

variable [Encoding F] {sys sys' : System F}

theorem inv_initial : Inv pre ns (initial : System F) :=
  ⟨replicas.sound_initial, List.forall_mem_nil _, List.forall_mem_nil _, List.forall_mem_nil _, List.forall_mem_nil _⟩

omit [Encoding F] in
/-- A drain starts with nothing marked. -/
theorem drainSound_of_running {maxEtcdTxnOps : Int} {shardIDs : List String} {call : CommitOps (Value F)}
    (h : drainShards pre ns maxEtcdTxnOps shardIDs = .ok (.running call)) (s : Store (Value F)) :
    Drain.Sound pre ns s ⟨shardIDs, call, []⟩ := by
  obtain ⟨hvalid, hrunning⟩ := drainShards_running h
  obtain ⟨hops, hextra, -, hi, -⟩ := commitOps_running hrunning
  refine ⟨hops, hextra, fun shardID hmem => validateShardID_of_mem hvalid hmem, ?_⟩
  intro k shardID _ hlt
  dsimp only at hlt
  omega

omit [Encoding F] in
/-- A drain that returns at once drains nothing. -/
theorem nil_of_drainShards_returned {maxEtcdTxnOps : Int} {shardIDs : List String}
    {responses : List (TxnResponse (Value F))}
    (h : drainShards pre ns maxEtcdTxnOps shardIDs = .ok (.returned (.ok responses))) : shardIDs = [] := by
  obtain ⟨_, -, h⟩ := bind_eq_ok_iff.mp h
  have hreturned := Except.ok.inj h
  unfold commitAssignmentOps commitOps at hreturned
  split at hreturned
  · rename_i hnil
    exact List.map_eq_nil_iff.mp hnil
  · split at hreturned <;> cases hreturned

omit [Encoding F] in
theorem unmarks_of_running {maxEtcdTxnOps : Int} {shardIDs : List String} {call : CommitOps (Value F)}
    (h : undrainShards pre ns maxEtcdTxnOps shardIDs = .ok (.running call)) : Unmarks pre ns call := by
  obtain ⟨hops, hextra, -⟩ := commitOps_running (undrainShards_running h).2
  refine ⟨fun op hop => ?_, hextra⟩
  rw [hops] at hop
  obtain ⟨shardID, -, rfl⟩ := List.mem_map.mp hop
  exact ⟨shardID, rfl⟩

section Steps

variable [DecidableEq F]

theorem Inv.commitDrain (h : Inv pre ns sys) {i : Nat} {drain : Drain F} (hdrain : sys.draining[i]? = some drain)
    {fate : Fate} {progress : Progress (Value F)} {s' : Store (Value F)}
    (hcommit : drain.call.commitBatch fate sys.store = (progress, s')) {draining : List (Drain F)}
    (hdraining : ∀ d ∈ draining, d ∈ sys.draining ∨ d.Sound pre ns s') {drained : List String}
    (hdrained : ∀ shardID ∈ drained, shardID ∈ sys.drained ∨ DrainedAt pre ns s' shardID) :
    Inv pre ns { sys.write s' with draining, drained } := by
  have hsound := h.draining drain (List.mem_of_getElem? hdrain)
  have hrecordless := recordless_commitBatch hsound.extraOps hsound.put_ne_record hcommit
  refine ⟨hrecordless.sound h.sound, h.keeps, ?_, h.undraining, ?_⟩
  · intro d hd
    refine (hdraining d hd).elim (fun hold => ?_) id
    exact (h.draining d hold).mono fun shardID => hsound.isMarked_mono hcommit
  · intro shardID hmem
    refine (hdrained shardID hmem).elim (fun hold => ?_) id
    obtain ⟨hvalid, hmarked⟩ := drainedAt_iff.mp (h.drained shardID hold)
    exact drainedAt_iff.mpr ⟨hvalid, hsound.isMarked_mono hcommit hmarked⟩

theorem Inv.unmark (h : Inv pre ns sys) {s' : Store (Value F)} (hrecordless : Recordless sys.store s')
    {undraining : List (CommitOps (Value F))} (hundraining : ∀ call ∈ undraining, Unmarks pre ns call) :
    Inv pre ns { sys.unmark pre ns s' with undraining } := by
  refine ⟨hrecordless.sound h.sound, h.keeps, ?_, hundraining, ?_⟩
  · intro d hd
    obtain ⟨drain, hdrain, rfl⟩ := List.mem_map.mp hd
    exact (h.draining drain hdrain).unmark s'
  · intro shardID hmem
    obtain ⟨hmem, hmarked⟩ := List.mem_filter.mp hmem
    exact drainedAt_iff.mpr ⟨(h.drained shardID hmem).1, hmarked⟩

variable [Float64 F] [LawfulFloat64 F]

theorem Inv.planners (h : Inv pre ns sys) {label : replicas.Label F} (hspares : sparesMarks pre ns label = true)
    {planners : replicas.System F} (hstep : replicas.step pre ns label sys.planners = some planners) :
    Inv pre ns { sys with planners } := by
  have hmarks := isMarked_step h.sound hspares hstep
  refine ⟨h.sound.effect (replicas.effect_of_step h.sound hstep), keepsDrained_step h.keeps hstep, ?_,
    h.undraining, ?_⟩
  · exact fun drain hdrain => (h.draining drain hdrain).mono fun shardID hmarked => (hmarks shardID).trans hmarked
  · intro shardID hmem
    obtain ⟨hvalid, hmarked⟩ := drainedAt_iff.mp (h.drained shardID hmem)
    exact drainedAt_iff.mpr ⟨hvalid, (hmarks shardID).trans hmarked⟩

/-- Every step keeps the invariant, and only planners write records. -/
theorem Inv.step (h : Inv pre ns sys) {label : Label F} (hstep : step pre ns label sys = some sys') :
    Inv pre ns sys' ∧ (Recordless sys.store sys'.store ∨
      ∃ l planners, label = .planners l ∧ replicas.step pre ns l sys.planners = some planners ∧
        sys' = { sys with planners }) := by
  cases label with
  | planners l =>
    dsimp only [drains.step] at hstep
    split at hstep
    · rename_i hspares
      obtain ⟨planners, hplanners, rfl⟩ := Option.map_eq_some_iff.mp hstep
      exact ⟨h.planners hspares hplanners, .inr ⟨l, planners, rfl, hplanners, rfl⟩⟩
    · cases hstep
  | drainShards maxEtcdTxnOps shardIDs =>
    dsimp only [drains.step] at hstep
    split at hstep
    · rename_i call hcall
      cases hstep
      refine ⟨{ h with draining := ?_ }, .inl (.inl rfl)⟩
      exact List.forall_mem_append.mpr
        ⟨h.draining, List.forall_mem_singleton.mpr (drainSound_of_running hcall sys.store)⟩
    · rename_i responses hcall
      cases hstep
      obtain rfl := nil_of_drainShards_returned hcall
      refine ⟨{ h with drained := ?_ }, .inl (.inl rfl)⟩
      exact List.forall_mem_append.mpr ⟨h.drained, List.forall_mem_nil _⟩
    · cases hstep
      exact ⟨h, .inl (.inl rfl)⟩
  | commitDrain i fate =>
    dsimp only [drains.step] at hstep
    split at hstep
    · cases hstep
    rename_i drain hdrain
    have hsound := h.draining drain (List.mem_of_getElem? hdrain)
    rcases hcommit : drain.call.commitBatch fate sys.store with ⟨progress, s'⟩
    have hrecordless := recordless_commitBatch hsound.extraOps hsound.put_ne_record hcommit
    rw [hcommit] at hstep
    cases progress with
    | running call' =>
      cases hstep
      refine ⟨h.commitDrain hdrain hcommit ?_ (fun _ hmem => .inl hmem), .inl hrecordless⟩
      exact forall_mem_set (fun _ hold => .inl hold) (.inr (hsound.running hcommit))
    | returned result =>
      have herase : ∀ d ∈ sys.draining.eraseIdx i, d ∈ sys.draining ∨ d.Sound pre ns s' :=
        fun d hd => .inl (List.mem_of_mem_eraseIdx hd)
      cases result with
      | error e =>
        cases hstep
        exact ⟨h.commitDrain hdrain hcommit herase fun _ hmem => .inl hmem, .inl hrecordless⟩
      | ok responses =>
        cases hstep
        refine ⟨h.commitDrain hdrain hcommit herase fun shardID hmem => ?_, .inl hrecordless⟩
        exact (List.mem_append.mp hmem).imp_right (hsound.returned hcommit)
  | undrainShards maxEtcdTxnOps shardIDs =>
    dsimp only [drains.step] at hstep
    split at hstep
    · rename_i call hcall
      cases hstep
      refine ⟨{ h with undraining := ?_ }, .inl (.inl rfl)⟩
      exact forall_mem_concat h.undraining (unmarks_of_running hcall)
    · cases hstep
      exact ⟨h, .inl (.inl rfl)⟩
  | commitUndrain i fate =>
    dsimp only [drains.step] at hstep
    split at hstep
    · cases hstep
    rename_i call hcall
    obtain ⟨hops, hextra⟩ := h.undraining call (List.mem_of_getElem? hcall)
    rcases hcommit : call.commitBatch fate sys.store with ⟨progress, s'⟩
    have hrecordless : Recordless sys.store s' := by
      refine recordless_commitBatch hextra (fun hput => ?_) hcommit
      obtain ⟨shardID, heq⟩ := hops _ hput
      cases heq
    rw [hcommit] at hstep
    cases progress with
    | running call' =>
      cases hstep
      have hsame := CommitOps.sameCall_of_running hcommit
      refine ⟨h.unmark hrecordless (forall_mem_set h.undraining ?_), .inl hrecordless⟩
      exact ⟨hsame.ops ▸ hops, hsame.extraOps.trans hextra⟩
    | returned result =>
      cases hstep
      exact ⟨h.unmark hrecordless (forall_mem_eraseIdx h.undraining), .inl hrecordless⟩
  | resetNamespace fate =>
    cases hstep
    have hrecordless : Recordless sys.store (resetNamespace pre ns fate sys.store).2 := recordless_resetNamespace fate _
    exact ⟨h.unmark hrecordless h.undraining, .inl hrecordless⟩

end Steps

end Invariant

section Property

/-- When a planned assignment is sent, none of the shards it hands out has been
drained since its planner read the namespace. -/
def NoDrainSinceRead (pre ns : String) (sys : System F) : Label F → Prop
  | .planners (.send i _) =>
    match sys.planners.pending[i]? with
    | some (.assignShards snapshot _ _ _ request _) => ∀ shardID ∈ sys.drained,
        (∃ executorID, gives request executorID shardID) → DrainedAt pre ns snapshot shardID
    | _ => True
  | _ => True

/-- While planners and drains interleave in any way, no step gives a drained
shard to an executor whose record did not hold it, as long as no shard of an
assignment is drained between its planner's read and its commit. -/
theorem drained_not_added [Float64 F] [LawfulFloat64 F] [DecidableEq F] [Encoding F] (pre ns : String) (sys sys' : System F) (label : Label F)
    (hrun : Reaches (step pre ns) initial sys) (hmeets : NoDrainSinceRead pre ns sys label)
    (hstep : step pre ns label sys = some sys') (shardID : String) (hdrained : shardID ∈ sys.drained)
    (executorID : String) (howns : Owns pre ns sys'.store executorID shardID) :
    Owns pre ns sys.store executorID shardID := by
  have hinv : Inv pre ns sys :=
    hrun.invariant (Inv pre ns) (fun _ _ _ hinv _ hstep => (hinv.step hstep).1) inv_initial
  obtain ⟨-, hrecordless | ⟨l, planners, rfl, hplanners, rfl⟩⟩ := hinv.step hstep
  · exact hrecordless.owns_of_owns howns
  cases replicas.effect_of_step hinv.sound hplanners with
  | plan hplanned => exact howns
  | spare hspares hpending => exact (hspares.owns_eq hinv.sound.records) ▸ howns
  | delete hsent hgone hsheds hpending => exact hsheds.owns_of_owns hinv.sound.records howns
  | @assign i fate snapshot state origin order request guard s' pending hsent hfollows hassigned hpending =>
    have hmem := List.mem_of_getElem? hsent
    obtain ⟨hsnapshot, -, hdescribes, hplan⟩ := hinv.sound.planned _ hmem
    have hkeeps := hinv.keeps _ hmem
    rw [System.store, replicas.owns_assigned hassigned hplan hdescribes hsnapshot hinv.sound.records] at howns
    rcases howns with ⟨hcompared, hgives⟩ | ⟨-, howns⟩
    · rw [NoDrainSinceRead, hsent] at hmeets
      have hread := (hdescribes.drained shardID).mpr (hmeets shardID hdrained ⟨executorID, hgives⟩)
      have hstores : state.Stores executorID shardID := hkeeps _ _ hgives (decide_eq_true hread)
      rw [replicas.owns_congr (replicas.get_eq_of_compared hassigned hplan hdescribes hsnapshot hcompared)]
      exact replicas.owns_of_stores hdescribes hstores
    · exact howns

section Examples

open process (reporting threeShards)

/-- An executor joins and an assigner gives it two shards, one of them drained
before the assigner reads the namespace again. -/
def drainedBeforeRead : List (Label ExactFloat) :=
  [.planners (.heartbeat .stored "b" (reporting []) .delivered),
    .planners (.assign .stored threeShards.loadBalancing 1 ["s"]), .planners (.send 0 .delivered),
    .drainShards 128 ["s"], .commitDrain 0 .delivered,
    .planners (.assign .stored threeShards.loadBalancing 1 ["t"])]

/-- The planner of an assignment read the shard as drained. -/
def readsMark (pre ns shardID : String) : Option (Pending F) → Bool
  | some (.assignShards snapshot ..) => isMarked pre ns snapshot shardID
  | _ => false

/-- The condition at the last step, for a run with one drained shard. -/
theorem noDrainSinceRead_of_marked {sys : System F} {shardID : String} (hdrained : sys.drained = [shardID])
    (hvalid : validateShardID shardID = .ok ()) {i : Nat} {fate : Fate}
    (h : readsMark pre ns shardID sys.planners.pending[i]? = true) :
    NoDrainSinceRead pre ns sys (.planners (.send i fate)) := by
  unfold readsMark at h
  split at h
  · rename_i hsent
    rw [NoDrainSinceRead, hsent]
    intro shardID' hmem _
    rw [hdrained, List.mem_singleton] at hmem
    subst hmem
    exact drainedAt_iff.mpr ⟨hvalid, h⟩
  · cases h

/-- The drained shard stays where it is and the other one is placed. -/
theorem drainedBeforeRead_not_added :
    ∃ sys sys' : System ExactFloat, Reaches (step "/shards" "orders") initial sys ∧
      step "/shards" "orders" (.planners (.send 0 .delivered)) sys = some sys' ∧ "s" ∈ sys.drained ∧
      Owns "/shards" "orders" sys'.store "b" "t" ∧ Owns "/shards" "orders" sys.store "b" "s" := by
  have heval : ((drainedBeforeRead.foldlM (fun sys label => step "/shards" "orders" label sys) initial).bind
      fun sys => (step "/shards" "orders" (.planners (.send 0 .delivered)) sys).map fun sys' =>
        decide (sys.drained = ["s"]) && readsMark "/shards" "orders" "s" sys.planners.pending[0]? &&
          decide (Owns "/shards" "orders" sys'.store "b" "s" ∧ Owns "/shards" "orders" sys'.store "b" "t")) =
        some true := by
    decide +kernel
  obtain ⟨sys, hfold, hlast⟩ := Option.bind_eq_some_iff.mp heval
  obtain ⟨sys', hstep, hcheck⟩ := Option.map_eq_some_iff.mp hlast
  rw [Bool.and_eq_true, Bool.and_eq_true] at hcheck
  obtain ⟨⟨hdrained, hmarked⟩, howns⟩ := hcheck
  have hdrained := of_decide_eq_true hdrained
  obtain ⟨howns, howns'⟩ := of_decide_eq_true howns
  have hrun := reaches_of_foldlM hfold
  have hmem : "s" ∈ sys.drained := by
    rw [hdrained]
    exact List.mem_singleton_self _
  refine ⟨sys, sys', hrun, hstep, hmem, howns', ?_⟩
  exact drained_not_added _ _ sys sys' _ hrun (noDrainSinceRead_of_marked hdrained (by decide) hmarked) hstep "s"
    hmem "b" howns

/-- An assigner reads the namespace, the shard it places is drained, and only
then the assigner writes. -/
def drainedAfterRead : List (Label ExactFloat) :=
  [.planners (.heartbeat .stored "b" (reporting []) .delivered),
    .planners (.assign .stored threeShards.loadBalancing 1 ["s"]), .drainShards 128 ["s"],
    .commitDrain 0 .delivered]

theorem drainedAfterRead_added :
    ∃ sys sys' : System ExactFloat, Reaches (step "/shards" "orders") initial sys ∧
      step "/shards" "orders" (.planners (.send 0 .delivered)) sys = some sys' ∧ "s" ∈ sys.drained ∧
      Owns "/shards" "orders" sys'.store "b" "s" ∧ ¬Owns "/shards" "orders" sys.store "b" "s" := by
  have heval : ((drainedAfterRead.foldlM (fun sys label => step "/shards" "orders" label sys) initial).bind
      fun sys => (step "/shards" "orders" (.planners (.send 0 .delivered)) sys).map fun sys' =>
        decide ("s" ∈ sys.drained ∧ Owns "/shards" "orders" sys'.store "b" "s" ∧
          ¬Owns "/shards" "orders" sys.store "b" "s")) = some true := by
    decide +kernel
  obtain ⟨sys, hfold, hlast⟩ := Option.bind_eq_some_iff.mp heval
  obtain ⟨sys', hstep, hcheck⟩ := Option.map_eq_some_iff.mp hlast
  exact ⟨sys, sys', reaches_of_foldlM hfold, hstep, of_decide_eq_true hcheck⟩

end Examples

end Property

end drains
