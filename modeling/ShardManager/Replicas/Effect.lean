import ShardManager.Replicas.Records

open golang etcd etcdkeys store executorstore ownership

namespace replicas

open etcdtypes (Value Encoding fromAssignedState)

variable {F : Type} {pre ns : String} {s s' s₀ : Store (Value F)}

section Sound

variable [Encoding F]

/-- What is known of a write in flight. -/
def Pending.Planned (pre ns : String) (s : Store (Value F)) : Pending F → Prop
  | .assignShards snapshot state origin _ request _ =>
    snapshot.Follows s ∧ RecordKeys pre ns snapshot ∧ Describes pre ns snapshot state.toAssignmentState ∧
      Plan origin state request
  | .deleteExecutors snapshot executorIDs call =>
    snapshot.Follows s ∧ (∀ executorID ∈ executorIDs, SlashFree executorID) ∧
      (∀ op ∈ call.ops, ∃ executorID ∈ executorIDs,
        op = .delete (.withPrefix (buildExecutorIDPrefix pre ns executorID))) ∧
      call.extraOps = [touchAssignmentVersion pre ns]

theorem Pending.Planned.mono {p : Pending F} (h : p.Planned pre ns s) (hfollows : s.Follows s') :
    p.Planned pre ns s' := by
  cases p with
  | assignShards snapshot state origin order request guard => exact ⟨h.1.trans hfollows, h.2⟩
  | deleteExecutors snapshot executorIDs call => exact ⟨h.1.trans hfollows, h.2⟩

/-- Records are where they belong and writes in flight are what was planned.
Every run has this, whatever it does to ownership. -/
structure Sound (pre ns : String) (sys : System F) : Prop where
  records : RecordKeys pre ns sys.store
  planned : ∀ p ∈ sys.pending, p.Planned pre ns sys.store

theorem sound_initial : Sound pre ns (initial : System F) :=
  ⟨recordKeys_empty, fun _ h => absurd h List.not_mem_nil⟩

end Sound

section Commit

variable [Encoding F] {origin : Origin F} {state : NamespaceState F} {request : AssignShardsRequest F}

/-- A compared record that passed its comparison is still the one in the snapshot. -/
theorem get_eq_of_compared (hassigned : Assigned pre ns request s s') (hplan : Plan origin state request)
    (hdescribes : Describes pre ns s₀ state.toAssignmentState) (hfollows : s₀.Follows s) {executorID : String}
    (hmem : executorID ∈ compared request) :
    s.get (assignedStateKey pre ns executorID) = s₀.get (assignedStateKey pre ns executorID) := by
  apply hfollows.get_eq_of_modRevision_eq
  have hread : (state.assigned executorID).modRevision = s₀.modRevision (assignedStateKey pre ns executorID) :=
    hdescribes.modRevision (hplan.slashFree hmem)
  rw [← hread]
  rcases hmem with hmem | hmem
  · obtain ⟨revision, hlookup⟩ := Map.mem_iff_exists_lookup.mp hmem
    rw [hassigned.deleted_revision hlookup, hplan.deleted_revision hlookup]
  · obtain ⟨entry, hlookup⟩ := Map.mem_iff_exists_lookup.mp hmem
    rw [hassigned.state_revision hlookup, hplan.entry_revision hlookup]

omit [Encoding F] in
/-- The record of an executor that is neither deleted nor written is left alone. -/
theorem get_eq_of_unwritten (hassigned : Assigned pre ns request s s')
    (hids : ∀ {executorID}, executorID ∈ compared request → SlashFree executorID) {executorID : String}
    (hid : SlashFree executorID) (hdeleted : executorID ∉ request.executorsToDelete)
    (hwritten : executorID ∈ request.newState.shardAssignments → isWritten request executorID = false) :
    s'.get (assignedStateKey pre ns executorID) = s.get (assignedStateKey pre ns executorID) := by
  refine hassigned.unchanged ?_ ?_ (executorKey_ne_version executorID .assignedState)
  · intro e he
    rw [← Bool.not_eq_true]
    intro hkeyPrefix
    obtain rfl := (hasPrefix_buildExecutorKey_iff hid (hids (.inl he))).mp hkeyPrefix
    exact hdeleted he
  · intro e he hw heq
    obtain rfl := assignedStateKey_inj heq
    rw [hwritten he] at hw
    cases hw

omit [Encoding F] in
theorem recordKeys_assigned (hassigned : Assigned pre ns request s s')
    (hids : ∀ {executorID}, executorID ∈ compared request → SlashFree executorID)
    (hkeys : RecordKeys pre ns s) : RecordKeys pre ns s' := by
  intro key kv record hget hvalue
  by_cases hwritten : ∃ e ∈ request.newState.shardAssignments, isWritten request e = true ∧
      key = assignedStateKey pre ns e
  · obtain ⟨e, he, -, rfl⟩ := hwritten
    exact ⟨e, hids (.inr he), rfl⟩
  by_cases hdeleted : ∃ e ∈ request.executorsToDelete, hasPrefix key (buildExecutorIDPrefix pre ns e) = true
  · obtain ⟨e, he, hkeyPrefix⟩ := hdeleted
    rw [hassigned.deleted he hkeyPrefix] at hget
    cases hget
  by_cases hversion : key = buildAssignmentVersionKey pre ns
  · subst hversion
    rw [hassigned.version, Option.some.injEq] at hget
    subst hget
    cases hvalue
  · have hsame : s'.get key = s.get key := by
      refine hassigned.unchanged ?_ ?_ hversion
      · intro e he
        rw [← Bool.not_eq_true]
        exact fun hkeyPrefix => hdeleted ⟨e, he, hkeyPrefix⟩
      · exact fun e he hw heq => hwritten ⟨e, he, hw, heq⟩
    rw [hsame] at hget
    exact hkeys _ _ _ hget hvalue

/-- A successful write overwrites exactly the records it compared: this is
where the store refines the abstract ownership table. -/
theorem owns_assigned (hassigned : Assigned pre ns request s s') (hplan : Plan origin state request)
    (hdescribes : Describes pre ns s₀ state.toAssignmentState) (hfollows : s₀.Follows s)
    (hkeys : RecordKeys pre ns s) :
    Owns pre ns s' = overwrite (compared request) (gives request) (Owns pre ns s) := by
  have hkeys' : RecordKeys pre ns s' := recordKeys_assigned hassigned hplan.slashFree hkeys
  funext executorID shardID
  apply propext
  by_cases hdeleted : executorID ∈ request.executorsToDelete
  · have hid := hplan.slashFree (.inl hdeleted)
    have hnone : s'.get (assignedStateKey pre ns executorID) = none :=
      hassigned.deleted hdeleted ((hasPrefix_buildExecutorKey_iff hid hid).mpr rfl)
    constructor
    · rintro ⟨kv, record, hget, -⟩
      rw [hnone] at hget
      cases hget
    · rintro (⟨-, hgives⟩ | ⟨hnot, -⟩)
      · exact absurd hdeleted hgives.1
      · exact absurd (.inl hdeleted) hnot
  by_cases hentry : executorID ∈ request.newState.shardAssignments
  · have hid := hplan.slashFree (.inr hentry)
    obtain ⟨entry, hlookup⟩ := Map.mem_iff_exists_lookup.mp hentry
    have hgives : overwrite (compared request) (gives request) (Owns pre ns s) executorID shardID ↔
        shardID ∈ entry.assignedShards := by
      constructor
      · rintro (⟨-, -, entry', hlookup', hmem⟩ | ⟨hnot, -⟩)
        · rw [hlookup, Option.some.injEq] at hlookup'
          rwa [hlookup']
        · exact absurd (.inr hentry) hnot
      · exact fun hmem => .inl ⟨.inr hentry, hdeleted, entry, hlookup, hmem⟩
    rw [hgives]
    cases hwritten : isWritten request executorID with
    | true =>
      have hget := hassigned.written hlookup hwritten
      rw [← etcdtypes.mem_fromAssignedState]
      constructor
      · rintro ⟨kv, record, hget', hvalue, hmem⟩
        rw [hget, Option.some.injEq] at hget'
        subst hget'
        cases hvalue
        exact hmem
      · exact fun hmem => ⟨_, _, hget, rfl, hmem⟩
    | false =>
      rw [owns_congr (get_eq_of_unwritten hassigned hplan.slashFree hid hdeleted fun _ => hwritten),
        owns_congr (get_eq_of_compared hassigned hplan hdescribes hfollows (.inr hentry)),
        owns_iff_stores hdescribes hid, hplan.unwritten hlookup hwritten]
  · have hnot : executorID ∉ compared request := fun h => h.elim hdeleted hentry
    have howns : overwrite (compared request) (gives request) (Owns pre ns s) executorID shardID ↔
        Owns pre ns s executorID shardID := by
      constructor
      · rintro (⟨hmem, -⟩ | ⟨-, h⟩)
        · exact absurd hmem hnot
        · exact h
      · exact fun h => .inr ⟨hnot, h⟩
    rw [howns]
    by_cases hid : SlashFree executorID
    · exact owns_congr (get_eq_of_unwritten hassigned hplan.slashFree hid hdeleted
        fun h => absurd h hentry) shardID
    · exact ⟨fun h => absurd (h.slashFree hkeys') hid, fun h => absurd (h.slashFree hkeys) hid⟩

end Commit

section Runs

variable [Encoding F]

/-- A leader's request is a plan for what it has read. -/
theorem plan_of_read [Float64 F] [LawfulFloat64 F] {order : RangeOrder} {choices : process.Choices}
    {cfg : process.Config F} {state : NamespaceState F} {request : AssignShardsRequest F}
    (hread : getState pre ns order s = .ok state)
    (hdecision : process.rebalanceShardsImpl choices cfg state = .ok (.assignShards request)) :
    Plan (.leader cfg choices.now) state request := by
  obtain ⟨hdescribes, hids⟩ := getState_describes hread
  refine plan_of_leader hdecision hids fun hrecord => ?_
  obtain ⟨entry, hlookup⟩ := Map.mem_iff_exists_lookup.mp hrecord
  exact ((hdescribes.assignments _ _).mp hlookup).1

/-- What a leader plans on the current store. -/
theorem planned_of_rebalanced [Float64 F] [LawfulFloat64 F] {order : RangeOrder} {choices : process.Choices}
    {cfg : process.Config F} {maxEtcdTxnOps : Int} {guard : Guarded (Value F)} {state : NamespaceState F}
    (hread : getState pre ns order s = .ok state) (hkeys : RecordKeys pre ns s) {p : Pending F}
    (hmem : p ∈ rebalanced pre ns s choices cfg maxEtcdTxnOps guard state) : p.Planned pre ns s := by
  obtain ⟨hdescribes, hids⟩ := getState_describes hread
  unfold rebalanced at hmem
  split at hmem
  · rename_i request hdecision
    obtain rfl := List.mem_singleton.mp hmem
    exact ⟨.refl s, hkeys, hdescribes, plan_of_read hread hdecision⟩
  · rename_i executorIDs hdecision
    have hstale : ∀ executorID ∈ executorIDs, SlashFree executorID := by
      intro executorID he
      rcases process.rebalanceShardsImpl_ok rfl hdecision with ⟨-, hnone | ⟨-, hdelete⟩⟩ | ⟨-, p, -, hcase⟩
      · cases hnone
      · cases hdelete
        obtain ⟨revision, hlookup⟩ := Map.mem_iff_exists_lookup.mp (RangeOrder.mem_rangeKeys.mp he)
        exact hids (process.lookup_identifyStaleExecutors hlookup).1
      · rcases hcase with ⟨-, hdecision'⟩ | ⟨-, hdecision'⟩ <;> cases hdecision'
    split at hmem
    · rename_i call hcall
      obtain rfl := List.mem_singleton.mp hmem
      obtain ⟨hops, hextra, -⟩ := commitOps_running (deleteExecutors_running hcall)
      refine ⟨.refl s, hstale, ?_, hextra⟩
      intro op hop
      rw [hops] at hop
      obtain ⟨executorID, he, rfl⟩ := List.mem_map.mp hop
      exact ⟨executorID, he, rfl⟩
    · cases hmem
  · cases hmem
  · cases hmem

/-- What an assigner plans on the current store. -/
theorem planned_of_assigned [Float64 F] {order : RangeOrder} {cfg : loadbalancer.Config F} {now : Time}
    {shardKeys : List String} {state : NamespaceState F} (hread : getState pre ns order s = .ok state)
    (hkeys : RecordKeys pre ns s) {p : Pending F} (hmem : p ∈ assigned s order cfg now shardKeys state) :
    p.Planned pre ns s := by
  obtain ⟨hdescribes, hids⟩ := getState_describes hread
  unfold assigned at hmem
  split at hmem
  · rename_i batch hbatch
    obtain rfl := List.mem_singleton.mp hmem
    refine ⟨.refl s, hkeys, hdescribes, plan_of_assigner hbatch hids ?_⟩
    intro executorID hrecord
    obtain ⟨entry, hlookup⟩ := Map.mem_iff_exists_lookup.mp hrecord
    exact ((hdescribes.assignments _ _).mp hlookup).1
  · cases hmem
  · cases hmem

/-- The store the planner of a write read. -/
def Pending.snapshot : Pending F → Store (Value F)
  | .assignShards snapshot .. => snapshot
  | .deleteExecutors snapshot .. => snapshot

/-- Everything a step can do to the store and to the writes in flight. -/
inductive Effect (pre ns : String) (sys : System F) : Label F → System F → Prop where
  | plan {label : Label F} {planned : List (Pending F)}
      (hplanned : ∀ p ∈ planned, p.Planned pre ns sys.store ∧ p.snapshot = sys.store) :
      Effect pre ns sys label ⟨sys.store, sys.pending ++ planned⟩
  | spare {label : Label F} {s' : Store (Value F)} {pending : List (Pending F)}
      (hspares : Spares pre ns sys.store s') (hpending : ∀ p ∈ pending, p ∈ sys.pending) :
      Effect pre ns sys label ⟨s', pending⟩
  | assign {i : Nat} {fate : Fate} {snapshot : Store (Value F)} {state : NamespaceState F} {origin : Origin F}
      {order : RangeOrder} {request : AssignShardsRequest F} {guard : Guarded (Value F)}
      {s' : Store (Value F)} {pending : List (Pending F)}
      (hsent : sys.pending[i]? = some (.assignShards snapshot state origin order request guard))
      (hfollows : sys.store.Follows s') (hassigned : Assigned pre ns request sys.store s')
      (hpending : ∀ p ∈ pending, p ∈ sys.pending) :
      Effect pre ns sys (.send i fate) ⟨s', pending⟩
  | delete {i : Nat} {fate : Fate} {snapshot : Store (Value F)} {executorIDs : List String}
      {call : CommitOps (Value F)} {gone : String → Prop} {s' : Store (Value F)} {pending : List (Pending F)}
      (hsent : sys.pending[i]? = some (.deleteExecutors snapshot executorIDs call))
      (hgone : ∀ {executorID}, gone executorID → executorID ∈ executorIDs)
      (hsheds : Sheds pre ns gone sys.store s')
      (hpending : ∀ p ∈ pending, p ∈ sys.pending ∨
        ∃ call', call.SameCall call' ∧ p = .deleteExecutors snapshot executorIDs call') :
      Effect pre ns sys (.send i fate) ⟨s', pending⟩

variable [DecidableEq F]

theorem effect_of_send {sys : System F} (hsound : Sound pre ns sys) {i : Nat} {p : Pending F}
    (hsent : sys.pending[i]? = some p) (fate : Fate) :
    Effect pre ns sys (.send i fate) ⟨(p.send pre ns fate sys.store).2,
      sys.pending.eraseIdx i ++ (p.send pre ns fate sys.store).1⟩ := by
  have herase : ∀ q ∈ sys.pending.eraseIdx i, q ∈ sys.pending := fun q hq => List.mem_of_mem_eraseIdx hq
  cases p with
  | assignShards snapshot state origin order request guard =>
    have hpending : ∀ q ∈ sys.pending.eraseIdx i ++ [], q ∈ sys.pending := by
      rwa [List.append_nil]
    change Effect pre ns sys (.send i fate)
      ⟨(executorstore.assignShards pre ns order request guard fate sys.store).2, sys.pending.eraseIdx i ++ []⟩
    have hfollows := assignShards_follows pre ns order request guard fate sys.store
    rcases hcall : executorstore.assignShards pre ns order request guard fate sys.store with ⟨result, s'⟩
    rw [hcall] at hfollows
    rcases assignShards_cases hcall with ⟨-, -, rfl⟩ | ⟨-, e, -, rfl | ⟨-, hassigned, -⟩⟩ | ⟨-, -, hassigned, -⟩
    · exact .spare (.refl _) hpending
    · exact .spare (.refl _) hpending
    · exact .assign hsent hfollows hassigned hpending
    · exact .assign hsent hfollows hassigned hpending
  | deleteExecutors snapshot executorIDs call =>
    obtain ⟨-, hids, hops, hextra⟩ := hsound.planned _ (List.mem_of_getElem? hsent)
    unfold Pending.send
    dsimp only
    rcases hcall : call.commitBatch fate sys.store with ⟨progress, s'⟩
    obtain ⟨gone, hgone, hsheds⟩ := deleteBatch_sheds hops hextra hids hcall
    cases progress with
    | running call' =>
      refine .delete hsent hgone hsheds ?_
      intro q hq
      rcases List.mem_append.mp hq with hq | hq
      · exact .inl (herase q hq)
      · exact .inr ⟨call', CommitOps.sameCall_of_running hcall, List.mem_singleton.mp hq⟩
    | returned result =>
      refine .delete hsent hgone hsheds ?_
      intro q hq
      rw [List.append_nil] at hq
      exact .inl (herase q hq)

theorem effect_of_step [Float64 F] [LawfulFloat64 F] {sys sys' : System F} {label : Label F} (hsound : Sound pre ns sys)
    (h : step pre ns label sys = some sys') : Effect pre ns sys label sys' := by
  cases label with
  | heartbeat order executorID request fate =>
    cases h
    exact .spare (recordHeartbeat_spares order executorID request fate sys.store) fun _ hp => hp
  | rebalance order choices cfg maxEtcdTxnOps guard =>
    dsimp only [step] at h
    cases hread : getState pre ns order sys.store with
    | error message =>
      rw [hread] at h
      cases h
    | ok state =>
      rw [hread] at h
      cases h
      refine .plan fun p hp => ⟨planned_of_rebalanced hread hsound.records hp, ?_⟩
      unfold rebalanced at hp
      split at hp
      · obtain rfl := List.mem_singleton.mp hp
        rfl
      · split at hp
        · obtain rfl := List.mem_singleton.mp hp
          rfl
        · cases hp
      · cases hp
      · cases hp
  | assign order cfg now shardKeys =>
    dsimp only [step] at h
    cases hread : getState pre ns order sys.store with
    | error message =>
      rw [hread] at h
      cases h
    | ok state =>
      rw [hread] at h
      cases h
      refine .plan fun p hp => ⟨planned_of_assigned hread hsound.records hp, ?_⟩
      unfold assigned at hp
      split at hp
      · obtain rfl := List.mem_singleton.mp hp
        rfl
      · cases hp
      · cases hp
  | send i fate =>
    dsimp only [step] at h
    cases hsent : sys.pending[i]? with
    | none =>
      rw [hsent] at h
      cases h
    | some p =>
      rw [hsent] at h
      cases h
      exact effect_of_send hsound hsent fate
  | abandon i =>
    cases h
    exact .spare (.refl _) fun p hp => List.mem_of_mem_eraseIdx hp
  | other cmps ops fate =>
    dsimp only [step] at h
    split at h
    · rename_i hops
      cases h
      exact .spare (other_spares fate hops sys.store) fun _ hp => hp
    · cases h

omit [DecidableEq F] in
/-- Every step keeps a system sound. -/
theorem Sound.effect {sys sys' : System F} {label : Label F} (hsound : Sound pre ns sys)
    (h : Effect pre ns sys label sys') : Sound pre ns sys' := by
  cases h with
  | plan hplanned =>
    refine ⟨hsound.records, fun p hp => ?_⟩
    rcases List.mem_append.mp hp with hp | hp
    · exact hsound.planned p hp
    · exact (hplanned p hp).1
  | spare hspares hpending =>
    exact ⟨hspares.keys hsound.records,
      fun p hp => (hsound.planned p (hpending p hp)).mono hspares.follows⟩
  | assign hsent hfollows hassigned hpending =>
    obtain ⟨-, -, -, hplan⟩ := hsound.planned _ (List.mem_of_getElem? hsent)
    exact ⟨recordKeys_assigned hassigned hplan.slashFree hsound.records,
      fun p hp => (hsound.planned p (hpending p hp)).mono hfollows⟩
  | delete hsent hgone hsheds hpending =>
    refine ⟨hsheds.keys hsound.records, fun p hp => ?_⟩
    rcases hpending p hp with hp | ⟨call', hsame, rfl⟩
    · exact (hsound.planned p hp).mono hsheds.follows
    · obtain ⟨hfollows, hids, hops, hextra⟩ := hsound.planned _ (List.mem_of_getElem? hsent)
      refine ⟨hfollows.trans hsheds.follows, hids, ?_, hsame.extraOps.trans hextra⟩
      rw [hsame.ops]
      exact hops

end Runs

end replicas
