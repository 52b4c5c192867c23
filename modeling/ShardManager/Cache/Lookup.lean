import ShardManager.Cache.Signals

open golang etcd etcdkeys store executorstore cache stream

namespace lookup

open etcdtypes (Value Encoding)

variable {F : Type}

/-- What `GetShardOwner` returns. -/
inductive Answer where
  | shardDrained
  | owner (owner : ShardOwner)
  | shardNotFound
  | error (message : String)

/-- Where a call of `GetShardOwner` is. An answered call remembers, for
reasoning only, the snapshot it last looked at. -/
inductive Phase where
  | idle
  | lookupDrained
  | refreshingDrained
  | lookupDrainedAgain
  | readOwner
  | refreshingOwner
  | readOwnerAgain
  | answered (answer : Answer) (snapshot : ShardCache)

/-- The cache with its refreshes and one call on it. `held` is kept for
reasoning only: the snapshots the cache has held since the call began. -/
structure System (F : Type) where
  writers : Writers F
  cache : ShardCache
  /-- Refreshes of the refresh loop. -/
  refreshes : List Refresh
  /-- The refresh that all cache misses share. -/
  flight : Option Refresh
  phase : Phase
  held : List ShardCache

def initial : System F := ⟨⟨.empty, []⟩, newShardCache, [], none, .idle, []⟩

abbrev System.store (sys : System F) : Store (Value F) := sys.writers.store

inductive Label (F : Type) where
  /-- An operation of the store. -/
  | write (label : Write F)
  | startRefresh
  | refresh (i : Nat) (order : RangeOrder) (fails : Bool)
  /-- Another call misses the cache. -/
  | startFlight
  | flight (order : RangeOrder) (fails : Bool)
  | call
  /-- The next step of the call. -/
  | proceed
  /-- The context of the call is done while it waits for a refresh. -/
  | contextDone

/-- A cache miss joins the flight, or starts one. -/
def joined : Option Refresh → Option Refresh
  | some refresh => some refresh
  | none => some .started

/-- The call after the refresh it waits for has returned. -/
def Phase.resumed (ns : String) (failed : Option String) (c : ShardCache) : Phase → Phase
  | .refreshingDrained =>
    match failed with
    | some cause => .answered (.error s!"check shard drained: refresh for namespace {ns}: {cause}") c
    | none => .lookupDrainedAgain
  | .refreshingOwner =>
    match failed with
    | some cause => .answered (.error s!"get shard owner in map: refresh for namespace {ns}: {cause}") c
    | none => .readOwnerAgain
  | phase => phase

section Step

variable (pre ns shardID : String) [Float64 F] [DecidableEq F] [Encoding F]

/-- The system with a cache that a refresh has left behind. -/
def System.refreshed (sys : System F) (c : ShardCache) : System F :=
  { sys with cache := c, held := sys.held ++ [c] }

def proceed (sys : System F) : Option (System F) :=
  let drained := decide (shardID ∈ sys.cache.drainedShards)
  match sys.phase with
  | .lookupDrained =>
    if 0 < sys.cache.lastRevision then
      some { sys with phase := if drained then .answered .shardDrained sys.cache else .readOwner }
    else some { sys with phase := .refreshingDrained, flight := joined sys.flight }
  | .lookupDrainedAgain =>
    some { sys with phase := if drained then .answered .shardDrained sys.cache else .readOwner }
  | .readOwner =>
    match sys.cache.shardToExecutor.lookup shardID with
    | some owner => some { sys with phase := .answered (.owner owner) sys.cache }
    | none => some { sys with phase := .refreshingOwner, flight := joined sys.flight }
  | .readOwnerAgain =>
    match sys.cache.shardToExecutor.lookup shardID with
    | some owner => some { sys with phase := .answered (.owner owner) sys.cache }
    | none => some { sys with phase := .answered .shardNotFound sys.cache }
  | _ => none

def step : Label F → System F → Option (System F)
  | .write label, sys => (write pre ns label sys.writers).map fun writers => { sys with writers }
  | .startRefresh, sys => some { sys with refreshes := sys.refreshes ++ [.started] }
  | .refresh i order fails, sys =>
    match sys.refreshes[i]? with
    | none => none
    | some refresh =>
      let (outcome, c, _) := refresh.advance pre ns order fails sys.store sys.cache
      some { sys.refreshed c with refreshes := outcome.misses i sys.refreshes }
  | .startFlight, sys => some { sys with flight := joined sys.flight }
  | .flight order fails, sys =>
    match sys.flight with
    | none => none
    | some refresh =>
      let (outcome, c, _) := refresh.advance pre ns order fails sys.store sys.cache
      match outcome with
      | .going next => some { sys.refreshed c with flight := some next }
      | .finished failed =>
        let cause := if failed then some s!"refresh namespace state: get assignment state for namespace {ns}" else none
        some { sys.refreshed c with flight := none, phase := sys.phase.resumed ns cause c }
  | .call, sys =>
    match sys.phase with
    | .idle => some { sys with phase := .lookupDrained, held := [sys.cache] }
    | _ => none
  | .proceed, sys => proceed shardID sys
  | .contextDone, sys =>
    match sys.phase with
    | .refreshingDrained | .refreshingOwner =>
      some { sys with phase := sys.phase.resumed ns (some "context deadline exceeded") sys.cache }
    | _ => none

end Step

/-- The answer that one loaded snapshot gives. -/
def Gives (shardID : String) (snapshot : ShardCache) : Answer → Prop
  | .shardDrained => 0 < snapshot.lastRevision ∧ shardID ∈ snapshot.drainedShards
  | .owner owner => 0 < snapshot.lastRevision ∧ shardID ∉ snapshot.drainedShards ∧
      snapshot.shardToExecutor.lookup shardID = some owner
  | .shardNotFound => 0 < snapshot.lastRevision ∧ shardID ∉ snapshot.drainedShards ∧
      snapshot.shardToExecutor.lookup shardID = none
  | .error _ => True

/-- The call has seen that the shard is not drained and has not answered. -/
def Phase.Passed : Phase → Prop
  | .readOwner | .refreshingOwner | .readOwnerAgain => True
  | _ => False

/-- The read with which a step may replace the snapshot. -/
def Label.replacement (sys : System F) : Label F → Option AssignmentState
  | .refresh i _ _ =>
    match sys.refreshes[i]? with
    | some (.read state) => some state
    | _ => none
  | .flight _ _ =>
    match sys.flight with
    | some (.read state) => some state
    | _ => none
  | _ => none

/-- Between the call's check and its answer no snapshot is put in place in which
the shard is drained. -/
def Undisturbed (shardID : String) (sys : System F) (label : Label F) : Prop :=
  sys.phase.Passed → ∀ state, label.replacement sys = some state → shardID ∉ state.drainedShards

section Refresh

variable {pre ns : String} {order : RangeOrder} {fails notify : Bool} {s : Store (Value F)} {c c' : ShardCache}
  {refresh : Refresh} {outcome : Outcome} [Encoding F]

/-- What a refresh has read is from a store, and once it has replaced the maps
the cache is loaded. -/
def Loads (c : ShardCache) : Refresh → Prop
  | .started => True
  | .read state => 0 < state.revision
  | .replaced _ => 0 < c.lastRevision

theorem Loads.mono (h : Loads c refresh) (hle : c.lastRevision ≤ c'.lastRevision) : Loads c' refresh := by
  cases refresh with
  | started => trivial
  | read state => exact h
  | replaced updated => exact lt_of_lt_of_le h hle

/-- What a step of a refresh leaves behind. -/
structure Advanced (order : RangeOrder) (refresh : Refresh) (c : ShardCache) (outcome : Outcome) (c' : ShardCache) :
    Prop where
  le : c.lastRevision ≤ c'.lastRevision
  cache : c' = c ∨ ∃ state, refresh = .read state ∧ c' = fromNamespaceState order state
  going : ∀ next, outcome = .going next → Loads c' next
  finished : outcome = .finished false → 0 < c'.lastRevision

theorem advanced_of_advance (hloads : Loads c refresh)
    (h : refresh.advance pre ns order fails s c = (outcome, c', notify)) : Advanced order refresh c outcome c' := by
  have hle := advance_lastRevision h
  rcases advance_cases h with
    ⟨-, rfl, rfl, -⟩ | ⟨-, rfl, -, state, hread, rfl⟩ | ⟨-, state, updated, rfl, rfl, happly⟩ |
    ⟨updated, rfl, rfl, rfl, -⟩
  · exact ⟨hle, .inl rfl, (by intro next h; cases h), (by intro h; cases h)⟩
  · refine ⟨hle, .inl rfl, ?_, (by intro h; cases h)⟩
    intro next hnext
    cases hnext
    have hrevision := (getAssignmentState_describes hread).1.revision
    have hpos := s.revision_pos
    rw [← hrevision] at hpos
    exact hpos
  · have hpos : 0 < state.revision := hloads
    rcases applyNamespaceState_cases happly with ⟨-, rfl, hold⟩ | ⟨-, rfl, hnew⟩
    · refine ⟨hle, .inl rfl, ?_, (by intro h; cases h)⟩
      intro next hnext
      cases hnext
      exact hpos.trans_le hold
    · refine ⟨hle, .inr ⟨state, rfl, rfl⟩, ?_, (by intro h; cases h)⟩
      intro next hnext
      cases hnext
      exact hpos
  · exact ⟨hle, .inl rfl, (by intro next h; cases h), fun _ => hloads⟩

end Refresh

section Invariant

variable {pre ns shardID : String} {sys sys' : System F}

structure Inv (shardID : String) (sys : System F) : Prop where
  refreshes : ∀ refresh ∈ sys.refreshes, Loads sys.cache refresh
  flight : ∀ refresh, sys.flight = some refresh → Loads sys.cache refresh
  held : sys.phase ≠ .idle → sys.cache ∈ sys.held
  again : sys.phase = .lookupDrainedAgain → 0 < sys.cache.lastRevision
  passed : sys.phase.Passed → 0 < sys.cache.lastRevision ∧ shardID ∉ sys.cache.drainedShards
  answered : ∀ answer snapshot, sys.phase = .answered answer snapshot →
    snapshot ∈ sys.held ∧ Gives shardID snapshot answer

theorem inv_initial : Inv shardID (initial : System F) := by
  constructor <;> simp [initial, Phase.Passed]

theorem Inv.joined (h : Inv shardID sys) : ∀ refresh, joined sys.flight = some refresh → Loads sys.cache refresh := by
  intro refresh hrefresh
  unfold lookup.joined at hrefresh
  split at hrefresh
  · cases hrefresh
    exact h.flight _ (by assumption)
  · cases hrefresh
    trivial

/-- The cache may be replaced by something newer in which the shard is not
drained. -/
theorem Inv.refreshed {c : ShardCache} (h : Inv shardID sys) (hle : sys.cache.lastRevision ≤ c.lastRevision)
    (hundrained : sys.phase.Passed → shardID ∉ c.drainedShards) : Inv shardID (sys.refreshed c) where
  refreshes := fun refresh hmem => (h.refreshes refresh hmem).mono hle
  flight := fun refresh hflight => (h.flight refresh hflight).mono hle
  held := fun _ => List.mem_append_right _ (List.mem_singleton.mpr rfl)
  again := fun hphase => (h.again hphase).trans_le hle
  passed := fun hpassed => ⟨(h.passed hpassed).1.trans_le hle, hundrained hpassed⟩
  answered := fun answer snapshot hphase =>
    ⟨List.mem_append_left _ (h.answered answer snapshot hphase).1, (h.answered answer snapshot hphase).2⟩

/-- The call goes on once the refresh it waited for has loaded the cache, or it
gives up. -/
theorem Inv.resumed (h : Inv shardID sys) (ns : String) (cause : Option String)
    (hloaded : cause = none → 0 < sys.cache.lastRevision) :
    Inv shardID { sys with phase := sys.phase.resumed ns cause sys.cache } := by
  cases hphase : sys.phase with
  | refreshingDrained =>
    have hheld := h.held (by simp [hphase])
    cases cause with
    | some message =>
      refine { h with held := fun _ => hheld, again := ?_, passed := ?_, answered := ?_ }
      · intro hagain
        cases hagain
      · exact False.elim
      · intro answer snapshot hanswered
        cases hanswered
        exact ⟨hheld, trivial⟩
    | none =>
      refine { h with held := fun _ => hheld, again := fun _ => hloaded rfl, passed := False.elim, answered := ?_ }
      intro answer snapshot hanswered
      cases hanswered
  | refreshingOwner =>
    have hheld := h.held (by simp [hphase])
    cases cause with
    | some message =>
      refine { h with held := fun _ => hheld, again := ?_, passed := False.elim, answered := ?_ }
      · intro hagain
        cases hagain
      · intro answer snapshot hanswered
        cases hanswered
        exact ⟨hheld, trivial⟩
    | none =>
      have hpassed := h.passed (by rw [hphase]; trivial)
      refine { h with held := fun _ => hheld, again := ?_, passed := fun _ => hpassed, answered := ?_ }
      · intro hagain
        cases hagain
      · intro answer snapshot hanswered
        cases hanswered
  | _ =>
    simp only [Phase.resumed, ← hphase]
    exact h

/-- The call answers from the snapshot in place. -/
theorem Inv.answer (h : Inv shardID sys) (hphase : sys.phase ≠ .idle) {answer : Answer}
    (hgives : Gives shardID sys.cache answer) : Inv shardID { sys with phase := .answered answer sys.cache } := by
  refine { h with
    held := fun _ => h.held hphase
    again := (by intro hagain; cases hagain)
    passed := False.elim
    answered := ?_ }
  intro answer' snapshot hanswered
  cases hanswered
  exact ⟨h.held hphase, hgives⟩

/-- The drained check, on a cache that is loaded. -/
theorem Inv.checked (h : Inv shardID sys) (hphase : sys.phase ≠ .idle) (hloaded : 0 < sys.cache.lastRevision) :
    Inv shardID { sys with
      phase := if decide (shardID ∈ sys.cache.drainedShards) then .answered .shardDrained sys.cache else .readOwner } := by
  by_cases hdrained : shardID ∈ sys.cache.drainedShards
  · simp only [hdrained, decide_true, if_true]
    exact h.answer hphase ⟨hloaded, hdrained⟩
  · simp only [hdrained, decide_false, Bool.false_eq_true, if_false]
    exact { h with
      held := fun _ => h.held hphase
      again := (by intro hagain; cases hagain)
      passed := fun _ => ⟨hloaded, hdrained⟩
      answered := (by intro answer snapshot hanswered; cases hanswered) }

/-- The call misses the cache and waits for a refresh. -/
theorem Inv.waits (h : Inv shardID sys) (hphase : sys.phase ≠ .idle) {phase : Phase}
    (hpassed : phase.Passed → sys.phase.Passed) (hagain : phase ≠ .lookupDrainedAgain)
    (hanswered : ∀ answer snapshot, phase ≠ .answered answer snapshot) :
    Inv shardID { sys with phase := phase, flight := lookup.joined sys.flight } where
  refreshes := h.refreshes
  flight := h.joined
  held := fun _ => h.held hphase
  again := fun heq => absurd heq hagain
  passed := fun hp => h.passed (hpassed hp)
  answered := fun answer snapshot heq => absurd heq (hanswered answer snapshot)

theorem Inv.proceed (h : Inv shardID sys) (hstep : proceed shardID sys = some sys') : Inv shardID sys' := by
  unfold lookup.proceed at hstep
  dsimp only at hstep
  split at hstep
  · rename_i hphase
    split at hstep
    · rename_i hloaded
      cases hstep
      exact h.checked (by simp [hphase]) hloaded
    · cases hstep
      exact h.waits (by simp [hphase]) False.elim (by simp) (by simp)
  · rename_i hphase
    cases hstep
    exact h.checked (by simp [hphase]) (h.again hphase)
  · rename_i hphase
    have hpassed : sys.phase.Passed := by
      rw [hphase]
      trivial
    obtain ⟨hloaded, hundrained⟩ := h.passed hpassed
    split at hstep
    · rename_i owner howner
      cases hstep
      exact h.answer (by simp [hphase]) ⟨hloaded, hundrained, howner⟩
    · cases hstep
      exact h.waits (by simp [hphase]) (fun _ => hpassed) (by simp) (by simp)
  · rename_i hphase
    have hpassed : sys.phase.Passed := by
      rw [hphase]
      trivial
    obtain ⟨hloaded, hundrained⟩ := h.passed hpassed
    split at hstep
    · rename_i owner howner
      cases hstep
      exact h.answer (by simp [hphase]) ⟨hloaded, hundrained, howner⟩
    · rename_i hnone
      cases hstep
      exact h.answer (by simp [hphase]) ⟨hloaded, hundrained, hnone⟩
  · cases hstep

/-- A refresh does not disturb the call if what it may put in place does not
have the shard drained. -/
theorem Inv.advanced (h : Inv shardID sys) {order : RangeOrder} {refresh : Refresh} {outcome : Outcome} {c : ShardCache}
    (hadvanced : Advanced order refresh sys.cache outcome c)
    (hundrained : sys.phase.Passed → ∀ state, refresh = .read state → shardID ∉ state.drainedShards) :
    Inv shardID (sys.refreshed c) := by
  refine h.refreshed hadvanced.le fun hpassed => ?_
  rcases hadvanced.cache with rfl | ⟨state, hread, rfl⟩
  · exact (h.passed hpassed).2
  · exact hundrained hpassed state hread

variable [Float64 F] [DecidableEq F] [Encoding F]

theorem Inv.step {label : Label F} (h : Inv shardID sys) (hmeets : Undisturbed shardID sys label)
    (hstep : step pre ns shardID label sys = some sys') : Inv shardID sys' := by
  cases label with
  | write label =>
    obtain ⟨writers, -, rfl⟩ := Option.map_eq_some_iff.mp hstep
    exact { h with }
  | startRefresh =>
    cases hstep
    exact { h with refreshes := transition.forall_mem_concat h.refreshes trivial }
  | refresh i order fails =>
    dsimp only [lookup.step] at hstep
    split at hstep
    · cases hstep
    · rename_i refresh hrefresh
      rcases hadvance : refresh.advance pre ns order fails sys.store sys.cache with ⟨outcome, c, notify⟩
      rw [hadvance] at hstep
      cases hstep
      have hadvanced := advanced_of_advance (h.refreshes refresh (List.mem_of_getElem? hrefresh)) hadvance
      have hinv := h.advanced hadvanced fun hpassed state hread =>
        hmeets hpassed state (by simp [Label.replacement, hrefresh, hread])
      refine { hinv with refreshes := ?_ }
      cases outcome with
      | going next => exact transition.forall_mem_set hinv.refreshes (hadvanced.going next rfl)
      | finished failed => exact transition.forall_mem_eraseIdx hinv.refreshes
  | startFlight =>
    cases hstep
    exact { h with flight := h.joined }
  | flight order fails =>
    dsimp only [lookup.step] at hstep
    split at hstep
    · cases hstep
    · rename_i refresh hrefresh
      rcases hadvance : refresh.advance pre ns order fails sys.store sys.cache with ⟨outcome, c, notify⟩
      rw [hadvance] at hstep
      have hadvanced := advanced_of_advance (h.flight refresh hrefresh) hadvance
      have hinv := h.advanced hadvanced fun hpassed state hread =>
        hmeets hpassed state (by simp [Label.replacement, hrefresh, hread])
      cases outcome with
      | going next =>
        cases hstep
        refine { hinv with flight := ?_ }
        intro refresh' hflight
        cases hflight
        exact hadvanced.going next rfl
      | finished failed =>
        cases hstep
        have hresumed := hinv.resumed ns
          (if failed then some s!"refresh namespace state: get assignment state for namespace {ns}" else none)
          (by cases failed <;> simp [hadvanced.finished, System.refreshed])
        exact { hresumed with flight := (by intro refresh' hflight; cases hflight) }
  | call =>
    dsimp only [lookup.step] at hstep
    split at hstep
    · cases hstep
      exact { h with
        held := fun _ => List.mem_singleton.mpr rfl
        again := (by intro hagain; cases hagain)
        passed := False.elim
        answered := (by intro answer snapshot hanswered; cases hanswered) }
    · cases hstep
  | proceed => exact h.proceed hstep
  | contextDone =>
    dsimp only [lookup.step] at hstep
    split at hstep
    · cases hstep
      exact h.resumed ns _ (by simp)
    · cases hstep
      exact h.resumed ns _ (by simp)
    · cases hstep

/-- A lookup that no snapshot disturbs in which the shard is drained answers
what a single snapshot of the cache gave while it was under way. -/
theorem answer_of_one_snapshot
    (hrun : transition.Run (step pre ns shardID) (Undisturbed shardID) (initial : System F) sys) {answer : Answer}
    {snapshot : ShardCache} (hanswered : sys.phase = .answered answer snapshot) :
    snapshot ∈ sys.held ∧ Gives shardID snapshot answer := by
  have hinv : Inv shardID sys :=
    hrun.invariant (Inv shardID) (fun _ _ _ h hmeets hstep => h.step hmeets hstep) inv_initial
  exact hinv.answered answer snapshot hanswered

end Invariant

section Example

def Phase.isPassed : Phase → Bool
  | .readOwner | .refreshingOwner | .readOwnerAgain => true
  | _ => false

def isUndisturbed (shardID : String) (sys : System F) (label : Label F) : Bool :=
  match label.replacement sys with
  | some state => !sys.phase.isPassed || !decide (shardID ∈ state.drainedShards)
  | none => true

theorem undisturbed_of_isUndisturbed {shardID : String} {sys : System F} {label : Label F}
    (h : isUndisturbed shardID sys label = true) : Undisturbed shardID sys label := by
  intro hpassed state hstate
  have hphase : sys.phase.isPassed = true := by
    cases hphase : sys.phase <;> rw [hphase] at hpassed <;> first | rfl | exact hpassed.elim
  simpa [isUndisturbed, hstate, hphase] using h

/-- Executor `a` gets its first record. -/
def assigned : NamespaceState ExactFloat :=
  { NamespaceState.ofStored [] [] with
    shardAssignments := Map.ofList [("a", ⟨Map.ofList [("1", some ⟨.ready⟩)], ∅, 1, 0⟩)] }

/-- The cache has loaded the empty store when shard 1 is looked up. While the
call waits for the refresh after its miss, the shard is assigned. -/
def assignedMeanwhile : List (Label ExactFloat) :=
  [.startRefresh, .refresh 0 .stored false, .refresh 0 .stored false, .call, .proceed, .proceed,
    .write (.assignShards .stored ⟨assigned, ∅, none⟩ nopGuard .delivered)]

def drainedMeanwhile : List (Label ExactFloat) :=
  assignedMeanwhile ++ [.write (.drainShards 128 ["1"]), .write (.commitBatch 0 .delivered)]

/-- The refresh of the miss and the rest of the call. -/
def answeredAfterMiss : List (Label ExactFloat) :=
  [.flight .stored false, .flight .stored false, .flight .stored false, .proceed]

theorem assignedMeanwhile_answer_of_one_snapshot : ∃ (sys : System ExactFloat) (owner : ShardOwner)
    (snapshot : ShardCache), transition.Run (step "/shards" "orders" "1") (Undisturbed "1") initial sys ∧
      sys.phase = .answered (.owner owner) snapshot ∧ owner.executorID = "a" ∧
      snapshot ∈ sys.held ∧ Gives "1" snapshot (.owner owner) := by
  have heval : ((assignedMeanwhile ++ answeredAfterMiss).foldlM (fun sys label =>
      if isUndisturbed "1" sys label then step "/shards" "orders" "1" label sys else none) initial).map
      (fun sys => match sys.phase with
        | .answered (.owner owner) _ => owner.executorID
        | _ => "") = some "a" := by decide +kernel
  obtain ⟨sys, hfold, hanswer⟩ := Option.map_eq_some_iff.mp heval
  have hrun : transition.Run (step "/shards" "orders" "1") (Undisturbed "1") initial sys :=
    transition.run_of_foldlM _ (fun _ _ => undisturbed_of_isUndisturbed) hfold
  split at hanswer
  · rename_i owner snapshot hphase
    exact ⟨sys, owner, snapshot, hrun, hphase, hanswer, answer_of_one_snapshot hrun hphase⟩
  · exact absurd hanswer (by decide)

/-- If the shard is drained as well before the miss is refreshed, its owner is
returned although it is drained in the snapshot the owner is read from, and no
other snapshot of the call has that owner. -/
theorem owner_of_drained_shard : ∃ (sys : System ExactFloat) (owner : ShardOwner) (snapshot : ShardCache),
    transition.Reaches (step "/shards" "orders" "1") initial sys ∧ sys.phase = .answered (.owner owner) snapshot ∧
      "1" ∈ snapshot.drainedShards ∧ ∀ held ∈ sys.held, ¬Gives "1" held (.owner owner) := by
  have heval : ((drainedMeanwhile ++ answeredAfterMiss).foldlM
      (fun sys label => step "/shards" "orders" "1" label sys) initial).map
      (fun sys => match sys.phase with
        | .answered (.owner _) snapshot => decide ("1" ∈ snapshot.drainedShards) && sys.held.all fun held =>
            decide ("1" ∈ held.drainedShards) || (held.shardToExecutor.lookup "1").isNone
        | _ => false) = some true := by decide +kernel
  obtain ⟨sys, hfold, hanswer⟩ := Option.map_eq_some_iff.mp heval
  split at hanswer
  · rename_i owner snapshot hphase
    obtain ⟨hdrained, hall⟩ := Bool.and_eq_true_iff.mp hanswer
    refine ⟨sys, owner, snapshot, transition.reaches_of_foldlM hfold, hphase, of_decide_eq_true hdrained, ?_⟩
    rintro held hheld ⟨-, hundrained, howner⟩
    rcases Bool.or_eq_true_iff.mp (List.all_eq_true.mp hall held hheld) with h | h
    · exact hundrained (of_decide_eq_true h)
    · rw [howner] at h
      cases h
  · cases hanswer

end Example

end lookup
