import ShardManager.Cache.Signals

open golang etcd etcdkeys store executorstore cache handler transition

namespace stream

open etcdtypes (Value Encoding)

variable {F : Type} [Encoding F] {pre ns : String}

section Held

/-- The maps of a cache come from one read, if it has loaded anything. -/
def FromRead (P : AssignmentState → Prop) (c : ShardCache) : Prop :=
  c = newShardCache ∨ ∃ order state, P state ∧ c = fromNamespaceState order state

/-- So does a response. -/
def SentFromRead (P : AssignmentState → Prop) (sent : Sent) : Prop :=
  ∃ order c, FromRead P c ∧ sent = ⟨watchResponse order c, c.lastRevision⟩

/-- Everything the system holds comes from reads. -/
structure Held (P : AssignmentState → Prop) (sys : System F) : Prop where
  cache : FromRead P sys.cache
  background : ∀ {state}, sys.background = .refreshing (.read state) → P state
  misses : ∀ {state}, .read state ∈ sys.misses → P state
  sending : ∀ {sent}, sys.subscriber = .sending sent → SentFromRead P sent
  sent : ∀ {sent}, sys.sent = some sent → SentFromRead P sent

variable {P Q : AssignmentState → Prop} {sys sys' : System F}

theorem FromRead.mono (h : ∀ state, P state → Q state) {c : ShardCache} (hc : FromRead P c) : FromRead Q c := by
  rcases hc with rfl | ⟨order, state, hstate, rfl⟩
  · exact .inl rfl
  · exact .inr ⟨order, state, h state hstate, rfl⟩

omit [Encoding F] in
theorem Held.mono (h : ∀ state, P state → Q state) (hheld : Held P sys) : Held Q sys where
  cache := hheld.cache.mono h
  background hread := h _ (hheld.background hread)
  misses hread := h _ (hheld.misses hread)
  sending hsending := by
    obtain ⟨order, c, hc, heq⟩ := hheld.sending hsending
    exact ⟨order, c, hc.mono h, heq⟩
  sent hsent := by
    obtain ⟨order, c, hc, heq⟩ := hheld.sent hsent
    exact ⟨order, c, hc.mono h, heq⟩

omit [Encoding F] in
theorem held_initial : Held P (initial : System F) where
  cache := .inl rfl
  background hread := by cases hread
  misses hread := absurd hread List.not_mem_nil
  sending hsending := by cases hsending
  sent hsent := by cases hsent

/-- A refresh passes on what it has read. -/
theorem advance_fromRead {order : RangeOrder} {fails : Bool} {s : Store (Value F)} {c c' : ShardCache}
    {refresh : Refresh} {outcome : Outcome} {notify : Bool}
    (h : refresh.advance pre ns order fails s c = (outcome, c', notify))
    (hread : ∀ state, getAssignmentState pre ns s = .ok state → P state) (hc : FromRead P c)
    (hrefresh : ∀ state, refresh = .read state → P state) :
    FromRead P c' ∧ ∀ state, outcome = .going (.read state) → P state := by
  rcases advance_cases h with ⟨-, rfl, rfl, -⟩ | ⟨-, rfl, -, state, hstate, rfl⟩ |
    ⟨-, state, updated, rfl, rfl, happly⟩ | ⟨updated, -, rfl, rfl, -⟩
  · exact ⟨hc, fun state heq => by cases heq⟩
  · refine ⟨hc, fun state' heq => ?_⟩
    cases heq
    exact hread state hstate
  · refine ⟨?_, fun state' heq => by cases heq⟩
    rcases applyNamespaceState_cases happly with ⟨-, rfl, -⟩ | ⟨-, rfl, -⟩
    · exact hc
    · exact .inr ⟨order, state, hrefresh state rfl, rfl⟩
  · exact ⟨hc, fun state heq => by cases heq⟩

theorem mem_of_mem_misses {misses : List Refresh} {i : Nat} {outcome : Outcome} {refresh : Refresh}
    (h : refresh ∈ outcome.misses i misses) : refresh ∈ misses ∨ outcome = .going refresh := by
  cases outcome with
  | going next =>
    rcases List.mem_or_eq_of_mem_set h with hmem | rfl
    · exact .inl hmem
    · exact .inr rfl
  | finished failed => exact .inl (List.mem_of_mem_eraseIdx h)

variable [DecidableEq F]

theorem Held.effect (hheld : Held P sys) (h : Effect pre ns sys sys')
    (hread : ∀ state, getAssignmentState pre ns sys.store = .ok state → P state) : Held P sys' := by
  cases h with
  | written => exact { hheld with }
  | watching => exact { hheld with }
  | woken => exact { hheld with background := fun h => by cases h }
  | @refreshed order fails refresh outcome c notify hrefreshing hadvance =>
    obtain ⟨hcache, hgoing⟩ := advance_fromRead hadvance hread hheld.cache
      fun state heq => hheld.background (heq ▸ hrefreshing)
    refine { hheld with cache := hcache, background := fun {state} h => hgoing state ?_ }
    cases outcome with
    | going next =>
      cases h
      rfl
    | finished failed => cases h
  | missed =>
    refine { hheld with misses := fun {state} hmem => ?_ }
    rcases List.mem_append.mp hmem with hmem | hmem
    · exact hheld.misses hmem
    · cases List.mem_singleton.mp hmem
  | @refreshedMiss i order fails refresh outcome c notify hmiss hadvance =>
    obtain ⟨hcache, hgoing⟩ := advance_fromRead hadvance hread hheld.cache
      fun state heq => hheld.misses (heq ▸ List.mem_of_getElem? hmiss)
    refine { hheld with cache := hcache, misses := fun {state} hmem => ?_ }
    rcases mem_of_mem_misses hmem with hmem | houtcome
    · exact hheld.misses hmem
    · exact hgoing state houtcome
  | streaming hmove =>
    cases hmove with
    | prepares => exact { hheld with sending := fun h => by cases h }
    | snapshot order =>
      refine { hheld with sending := fun h => ?_ }
      cases h
      exact ⟨order, sys.cache, hheld.cache, rfl⟩
    | sends hsending =>
      refine { hheld with sending := fun h => (by cases h), sent := fun h => ?_ }
      cases h
      exact hheld.sending hsending
    | closes => exact { hheld with sending := fun h => (by cases h), sent := fun h => (by cases h) }

end Held

section Quiescent

variable {sys : System F}

/-- Nothing is pending: the watch is connected and its events are processed, no
change signal is buffered, the last refresh of the loop succeeded, no refresh is
in progress, and the stream has neither a notification nor a send left. -/
structure Quiescent (sys : System F) : Prop where
  watcher : sys.watcher = .receiving []
  signal : sys.signal = false
  background : sys.background = .waiting false
  misses : sys.misses = []
  token : sys.token = false
  subscriber : sys.subscriber = .waiting

def isQuiescent (sys : System F) : Bool :=
  match sys.watcher, sys.background, sys.misses, sys.subscriber with
  | .receiving [], .waiting false, [], .waiting => !sys.signal && !sys.token
  | _, _, _, _ => false

omit [Encoding F] in
theorem quiescent_of_isQuiescent (h : isQuiescent sys = true) : Quiescent sys := by
  unfold isQuiescent at h
  split at h
  · rw [Bool.and_eq_true, Bool.not_eq_true', Bool.not_eq_true'] at h
    exact ⟨by assumption, h.1, by assumption, by assumption, h.2, by assumption⟩
  · cases h

theorem Quiescent.cached (h : Quiescent sys) (hreported : Reported pre ns sys) :
    sys.changed ≤ sys.cache.lastRevision := by
  rcases hreported with hcached | hqueued | hsignalled | hcovered
  · exact hcached
  · rw [h.watcher] at hqueued
    cases hqueued
  · rw [h.signal] at hsignalled
    cases hsignalled
  · rw [h.background] at hcovered
    cases hcovered

omit [Encoding F] in
theorem Quiescent.last_sent (h : Quiescent sys) (hnotified : Notified sys) :
    ∃ sent, sys.sent = some sent ∧ sys.cache.lastRevision ≤ sent.revision := by
  rw [Notified, h.subscriber] at hnotified
  obtain ⟨sent, hsent, hannounced⟩ := hnotified
  refine ⟨sent, hsent, ?_⟩
  rcases hannounced with hle | htoken | hreplaced | hmissed
  · exact hle
  · rw [h.token] at htoken
    cases htoken
  · rw [h.background] at hreplaced
    cases hreplaced
  · rw [h.misses] at hmissed
    cases hmissed

end Quiescent

section Run

variable [Float64 F] [DecidableEq F] {sys₀ sys sys' : System F}

/-- The runs whose operations are called with proper executor IDs. -/
abbrev StreamRun (pre ns : String) : System F → System F → Prop :=
  Run (step pre ns) fun _ label => label.Proper

/-- The state was read from the store at some point of the run. -/
def ReadBefore (pre ns : String) (sys : System F) (state : AssignmentState) : Prop :=
  ∃ sys₀, StreamRun pre ns initial sys₀ ∧ StreamRun pre ns sys₀ sys ∧ getAssignmentState pre ns sys₀.store = .ok state

/-- What holds along every run. -/
structure Inv (pre ns : String) (sys : System F) : Prop where
  store : StoreInv pre ns sys
  reported : Reported pre ns sys
  notified : Notified sys

theorem inv_of_run (h : StreamRun pre ns initial sys) : Inv pre ns sys := by
  refine h.invariant (Inv pre ns) ?_ ⟨storeInv_initial, .inr (.inl trivial), trivial⟩
  intro sys label sys' hinv hproper hstep
  have heffect := effect_of_step hinv.store hproper hstep
  exact ⟨hinv.store.effect heffect, hinv.reported.effect hinv.store heffect, hinv.notified.effect heffect⟩

theorem held_of_run (h : StreamRun pre ns initial sys) : Held (ReadBefore pre ns sys) sys := by
  induction h with
  | refl => exact held_initial
  | @tail sys sys' hrun hlast ih =>
    obtain ⟨label, hproper, hstep⟩ := hlast
    have hheld := ih.effect (effect_of_step (inv_of_run hrun).store hproper hstep)
      fun state hread => ⟨sys, hrun, .refl, hread⟩
    refine hheld.mono ?_
    rintro state ⟨sys₀, hrun₀, hrun', hread⟩
    exact ⟨sys₀, hrun₀, hrun'.tail ⟨label, hproper, hstep⟩, hread⟩

/-- Later in a run the cache is at least as new, and what a stream shows of the
store is the same unless a change has been reported since. -/
theorem later_of_run (hinv : StoreInv pre ns sys) (h : StreamRun pre ns sys sys') :
    sys.cache.lastRevision ≤ sys'.cache.lastRevision ∧
      (sys'.changed ≤ sys.store.revision → SameView pre ns sys.store sys'.store) := by
  have hkept := h.invariant (fun x => StoreInv pre ns x ∧ sys.store.revision ≤ x.store.revision ∧
    sys.cache.lastRevision ≤ x.cache.lastRevision ∧
    (x.changed ≤ sys.store.revision → SameView pre ns sys.store x.store)) ?_
    ⟨hinv, le_rfl, le_rfl, fun _ => .refl _⟩
  · exact hkept.2.2
  · rintro a label b ⟨ha, hle, hcache, hsame⟩ hproper hstep
    have heffect := effect_of_step ha hproper hstep
    obtain ⟨hrevision, hview⟩ := sameView_of_effect ha heffect
    refine ⟨ha.effect heffect, hle.trans hrevision, hcache.trans (lastRevision_le_of_effect heffect), fun hunchanged => ?_⟩
    rcases hview with hlt | ⟨hchanged, hview⟩
    · exact absurd hunchanged (not_le.mpr (hle.trans_lt hlt))
    · exact (hsame (hchanged ▸ hunchanged)).trans hview

/-- A response that is as new as the last reported change describes the store. -/
theorem shows_of_read (hchanged : 0 < sys.changed) {sent : Sent} (hsent : SentFromRead (ReadBefore pre ns sys) sent)
    (hnew : sys.changed ≤ sent.revision) : Shows pre ns sys.store sent.response := by
  obtain ⟨order, c, rfl | ⟨order', state, ⟨sys₀, hrun₀, hrun, hread⟩, rfl⟩, rfl⟩ := hsent
  -- A cache that has loaded nothing is older than every store.
  · exact absurd hnew (not_le.mpr hchanged)
  · have hinv₀ := (inv_of_run hrun₀).store
    obtain ⟨hdescribes, -⟩ := getAssignmentState_describes hread
    have hrevision : state.revision = sys₀.store.revision := hdescribes.revision
    exact (shows_watchResponse hinv₀.bare hdescribes).of_sameView ((later_of_run hinv₀ hrun).2 (hrevision ▸ hnew))

/-- No assignment change is lost between the store and a stream. The maps of
the cache come from a single read of the store and only get newer, and whenever
nothing is pending the last response on the stream describes the store. Watches
fail and come back, refreshes fail, signals and notifications coalesce, and
refreshes after cache misses get in between, in any order. -/
theorem no_change_lost (pre ns : String) (sys : System F) (hrun : StreamRun pre ns initial sys) :
    (sys.cache = newShardCache ∨ ∃ sys₀ order state, StreamRun pre ns initial sys₀ ∧ StreamRun pre ns sys₀ sys ∧
      getAssignmentState pre ns sys₀.store = .ok state ∧ sys.cache = fromNamespaceState order state) ∧
    (∀ sys', StreamRun pre ns sys sys' → sys.cache.lastRevision ≤ sys'.cache.lastRevision) ∧
    (Quiescent sys → ∃ sent, sys.sent = some sent ∧ Shows pre ns sys.store sent.response) := by
  have hinv := inv_of_run hrun
  have hheld := held_of_run hrun
  refine ⟨?_, fun sys' hrun' => (later_of_run hinv.store hrun').1, fun hquiescent => ?_⟩
  · rcases hheld.cache with hnew | ⟨order, state, ⟨sys₀, hrun₀, hrun', hread⟩, heq⟩
    · exact .inl hnew
    · exact .inr ⟨sys₀, order, state, hrun₀, hrun', hread, heq⟩
  · obtain ⟨sent, hsent, hle⟩ := hquiescent.last_sent hinv.notified
    refine ⟨sent, hsent, shows_of_read hinv.store.changed_pos (hheld.sent hsent) ?_⟩
    exact (hquiescent.cached hinv.reported).trans hle

end Run

section Examples

/-- Executor `a` gets its first record. -/
def firstAssignment : NamespaceState ExactFloat :=
  { NamespaceState.ofStored [] [] with
    shardAssignments := Map.ofList [("a", ⟨Map.ofList [("1", some ⟨.ready⟩)], ∅, 1, 0⟩)] }

/-- A stream is opened on an empty cache, a watch is made and its signal makes
the cache load the empty store. Then an executor joins, is assigned a shard, and
another shard is drained. The events arrive together, and the stream is notified
once more. -/
def delivered : List (Label ExactFloat) :=
  let refreshes : List (Label ExactFloat) :=
    [.refresh .stored false, .refresh .stored false, .refresh .stored false]
  let sends : List (Label ExactFloat) := [.snapshot .stored, .sendDone]
  ([.subscribe] : List (Label ExactFloat)) ++ sends ++
    ([.watch, .watchSignal, .wake false] : List (Label ExactFloat)) ++ refreshes ++
    ([.receiveToken] : List (Label ExactFloat)) ++ sends ++
    ([.write (.recordHeartbeat .stored "a" (heartbeatAt 1) .delivered),
      .write (.assignShards .stored ⟨firstAssignment, ∅, none⟩ nopGuard .delivered),
      .write (.drainShards 128 ["7"]), .write (.commitBatch 0 .delivered), .receive 3, .wake false] :
        List (Label ExactFloat)) ++
    refreshes ++ ([.receiveToken] : List (Label ExactFloat)) ++ sends

theorem delivered_not_lost : ∃ (sys : System ExactFloat) (sent : Sent),
    StreamRun "/shards" "orders" initial sys ∧ Quiescent sys ∧ sys.sent = some sent ∧
    sent.response.executors.map (fun entry => (entry.executorID, entry.assignedShards)) = [("a", ["1"])] ∧
    sent.response.drainedShardKeys = ["7"] ∧ Shows "/shards" "orders" sys.store sent.response := by
  have heval : ((delivered.foldlM
      (fun sys label => if decide label.Proper then step "/shards" "orders" label sys else none) initial).bind
      fun sys => sys.sent.map fun sent => decide (isQuiescent sys = true ∧
        sent.response.executors.map (fun entry => (entry.executorID, entry.assignedShards)) = [("a", ["1"])] ∧
        sent.response.drainedShardKeys = ["7"])) = some true := by
    decide +kernel
  obtain ⟨sys, hfold, heval⟩ := Option.bind_eq_some_iff.mp heval
  obtain ⟨sent, hsent, heval⟩ := Option.map_eq_some_iff.mp heval
  obtain ⟨hquiescent, hexecutors, hdrained⟩ := of_decide_eq_true heval
  have hquiescent := quiescent_of_isQuiescent hquiescent
  have hrun : StreamRun "/shards" "orders" initial sys :=
    run_of_foldlM (fun _ label => decide label.Proper) (fun _ _ => of_decide_eq_true) hfold
  obtain ⟨sent', hsent', hshows⟩ := (no_change_lost _ _ sys hrun).2.2 hquiescent
  cases hsent.symm.trans hsent'
  exact ⟨sys, sent, hrun, hquiescent, hsent, hexecutors, hdrained, hshows⟩

end Examples

end stream
