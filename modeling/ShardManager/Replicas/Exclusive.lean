import ShardManager.Replicas.Effect

open golang etcd etcdkeys store executorstore ownership transition

namespace replicas

open etcdtypes (Value Encoding)

variable {F : Type} [Encoding F] {pre ns : String}

/-- When a planned assignment is sent, no executor outside those its planner
compares holds a shard that nobody had in the planner's snapshot and that the
planner may hand out. -/
def NoOutsideOwner (pre ns : String) (sys : System F) : Label F → Prop
  | .send i _ =>
    match sys.pending[i]? with
    | some (.assignShards _ state origin _ _ _) => ∀ executorID shardID,
        Owns pre ns sys.store executorID shardID → origin.Fresh state shardID → origin.Compares state executorID
    | _ => True
  | _ => True

/-- No shard has two owners, now or in a snapshot still in use. -/
structure SoleOwners (pre ns : String) (sys : System F) : Prop where
  sound : Sound pre ns sys
  exclusive : Exclusive (Owns pre ns sys.store)
  snapshots : ∀ p ∈ sys.pending, Exclusive (Owns pre ns p.snapshot)

omit [Encoding F] in
theorem noOutsideOwner_of_unowned {sys : System F}
    (h : ∀ executorID shardID, ¬Owns pre ns sys.store executorID shardID) (label : Label F) :
    NoOutsideOwner pre ns sys label := by
  unfold NoOutsideOwner
  split
  · split
    · exact fun executorID shardID howns => absurd howns (h executorID shardID)
    · trivial
  · trivial

theorem soleOwners_initial : SoleOwners pre ns (initial : System F) where
  sound := sound_initial
  exclusive _ _ _ h := absurd h not_owns_empty
  snapshots := fun _ h => absurd h List.not_mem_nil

/-- An assignment that is sent under the condition hands nothing out twice. -/
theorem exclusive_of_assigned {s s' s₀ : Store (Value F)} {origin : Origin F} {state : NamespaceState F}
    {request : AssignShardsRequest F} (hassigned : Assigned pre ns request s s')
    (hplan : Plan origin state request) (hdescribes : Describes pre ns s₀ state.toAssignmentState)
    (hfollows : s₀.Follows s) (hkeys : RecordKeys pre ns s) (hexclusive : Exclusive (Owns pre ns s))
    (hexclusive₀ : Exclusive (Owns pre ns s₀))
    (hmeets : ∀ executorID shardID, Owns pre ns s executorID shardID → origin.Fresh state shardID →
      origin.Compares state executorID) : Exclusive (Owns pre ns s') := by
  rw [owns_assigned hassigned hplan hdescribes hfollows hkeys]
  have hstores : Exclusive state.Stores :=
    hexclusive₀.mono fun _ _ h => owns_of_stores hdescribes h
  refine hexclusive.overwrite (fun e e' x _ _ hg hg' => hplan.exclusive hstores e e' x hg hg') ?_
  intro executorID shardID _ hgives
  rcases hplan.source hgives with ⟨e₀, he₀, hstore⟩ | hfresh
  · refine .inl ⟨e₀, he₀, ?_⟩
    rw [owns_congr (get_eq_of_compared hassigned hplan hdescribes hfollows he₀)]
    exact owns_of_stores hdescribes hstore
  · exact .inr fun e' howns => hplan.compares (hmeets e' shardID howns hfresh)

/-- Every step that meets the condition leaves each shard with one owner. -/
theorem SoleOwners.effect {sys sys' : System F} {label : Label F} (hinv : SoleOwners pre ns sys)
    (hmeets : NoOutsideOwner pre ns sys label) (h : Effect pre ns sys label sys') : SoleOwners pre ns sys' := by
  refine ⟨hinv.sound.effect h, ?_, ?_⟩
  · cases h with
    | plan hplanned => exact hinv.exclusive
    | spare hspares hpending => rw [hspares.owns_eq hinv.sound.records]; exact hinv.exclusive
    | assign hsent hfollows hassigned hpending =>
      have hmem := List.mem_of_getElem? hsent
      obtain ⟨hsnapshot, -, hdescribes, hplan⟩ := hinv.sound.planned _ hmem
      rw [NoOutsideOwner, hsent] at hmeets
      exact exclusive_of_assigned hassigned hplan hdescribes hsnapshot hinv.sound.records hinv.exclusive
        (hinv.snapshots _ hmem) hmeets
    | delete hsent hgone hsheds hpending =>
      exact hinv.exclusive.mono fun _ _ howns => hsheds.owns_of_owns hinv.sound.records howns
  · cases h with
    | plan hplanned =>
      intro p hp
      rcases List.mem_append.mp hp with hp | hp
      · exact hinv.snapshots p hp
      · rw [(hplanned p hp).2]
        exact hinv.exclusive
    | spare hspares hpending => exact fun p hp => hinv.snapshots p (hpending p hp)
    | assign hsent hfollows hassigned hpending => exact fun p hp => hinv.snapshots p (hpending p hp)
    | delete hsent hgone hsheds hpending =>
      intro p hp
      rcases hpending p hp with hp | ⟨call', -, rfl⟩
      · exact hinv.snapshots p hp
      · have hsnapshot := hinv.snapshots _ (List.mem_of_getElem? hsent)
        exact hsnapshot

/-- Leaders, assigners and executors interleaving in any way leave every shard
with at most one owner, as long as no assignment is sent while an executor it
does not compare holds a shard it may hand out. Nothing is assumed about the
guards, so any number of replicas may believe to be the leader. -/
theorem exclusive_of_run [Float64 F] [LawfulFloat64 F] [DecidableEq F] (pre ns : String) (sys : System F)
    (hrun : Run (step pre ns) (NoOutsideOwner pre ns) initial sys) (shardID executorID executorID' : String)
    (h : Owns pre ns sys.store executorID shardID) (h' : Owns pre ns sys.store executorID' shardID) :
    executorID = executorID' := by
  have hinv : SoleOwners pre ns sys := by
    refine hrun.invariant (SoleOwners pre ns) ?_ soleOwners_initial
    exact fun sys label sys' hinv hmeets hstep => hinv.effect hmeets (effect_of_step hinv.sound hstep)
  exact hinv.exclusive _ _ _ h h'

section Examples

open process (reporting threeShards)

/-- Executor `b` joins and is given a shard. -/
def assignedOnce : List (Label ExactFloat) :=
  [.heartbeat .stored "b" (reporting []) .delivered, .assign .stored threeShards.loadBalancing 1 ["s"],
    .send 0 .delivered]

/-- A run that meets the condition and assigns something. -/
theorem assignedOnce_exclusive :
    ∃ sys : System ExactFloat, Run (step "/shards" "orders") (NoOutsideOwner "/shards" "orders") initial sys ∧
      Owns "/shards" "orders" sys.store "b" "s" ∧
      ∀ executorID, Owns "/shards" "orders" sys.store executorID "s" → executorID = "b" := by
  have heval : (assignedOnce.foldlM (fun sys label => step "/shards" "orders" label sys) initial).map
      (fun sys => decide (Owns "/shards" "orders" sys.store "b" "s")) = some true := by
    decide +kernel
  obtain ⟨sys, hfold, howns⟩ := Option.map_eq_some_iff.mp heval
  simp only [assignedOnce, List.foldlM_cons, List.foldlM_nil, Option.bind_eq_bind,
    Option.bind_eq_some_iff] at hfold
  obtain ⟨joined, hjoin, planned, hplan, sent, hsend, hlast⟩ := hfold
  cases hlast
  -- Nobody owns anything before the assignment is sent.
  have hjoined : ∀ executorID shardID, ¬Owns "/shards" "orders" joined.store executorID shardID := by
    have hspares : Spares "/shards" "orders" .empty (recordHeartbeat "/shards" "orders" .stored "b"
        (reporting []) .delivered .empty).2 := recordHeartbeat_spares ..
    cases hjoin
    intro executorID shardID howns
    rw [initial, hspares.owns_eq recordKeys_empty] at howns
    exact not_owns_empty howns
  have hplanned : planned.store = joined.store := by
    dsimp only [step] at hplan
    split at hplan
    · cases hplan
    · cases hplan
      rfl
  have hrun : Run (step "/shards" "orders") (NoOutsideOwner "/shards" "orders") initial sys := by
    refine .tail (.tail (.tail .refl ⟨_, ?_, hjoin⟩) ⟨_, ?_, hplan⟩) ⟨_, ?_, hsend⟩
    · exact noOutsideOwner_of_unowned (fun _ _ => not_owns_empty) _
    · exact noOutsideOwner_of_unowned hjoined _
    · exact noOutsideOwner_of_unowned (hplanned ▸ hjoined) _
  have howns := of_decide_eq_true howns
  exact ⟨sys, hrun, howns, fun executorID h => exclusive_of_run _ _ sys hrun "s" executorID "b" h howns⟩

/-- Two assigners place the same shard: the first read the namespace before
executor `a` joined, and `a` comes first in the second one's snapshot. Neither
compares the executor the other one writes. -/
def assignedTwice : List (Label ExactFloat) :=
  [.heartbeat .stored "b" (reporting []) .delivered, .assign .stored threeShards.loadBalancing 1 ["s"],
    .heartbeat .stored "a" (reporting []) .delivered, .assign .stored threeShards.loadBalancing 1 ["s"],
    .send 0 .delivered, .send 0 .delivered]

theorem assignedTwice_reached :
    ∃ sys : System ExactFloat, Reaches (step "/shards" "orders") initial sys ∧
      Owns "/shards" "orders" sys.store "a" "s" ∧ Owns "/shards" "orders" sys.store "b" "s" := by
  have heval : (assignedTwice.foldlM (fun sys label => step "/shards" "orders" label sys) initial).map
      (fun sys => decide (Owns "/shards" "orders" sys.store "a" "s" ∧ Owns "/shards" "orders" sys.store "b" "s")) =
        some true := by
    decide +kernel
  obtain ⟨sys, hfold, howns⟩ := Option.map_eq_some_iff.mp heval
  exact ⟨sys, reaches_of_foldlM hfold, of_decide_eq_true howns⟩

end Examples

end replicas
