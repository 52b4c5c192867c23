import ShardManager.Cache.Stream

open golang etcd etcdkeys store executorstore cache handler transition

namespace stream

open etcdtypes (Value Encoding)

variable {F : Type} [Encoding F] {pre ns : String}

section Store

theorem hasPrefix_namespace_of_isStateChange {event : Event (Value F)} (h : isStateChange pre ns event = true) :
    hasPrefix event.key (buildNamespacePrefix pre ns) = true := by
  have hdir : ∀ dir, hasPrefix event.key (buildNamespacePrefix pre ns ++ dir) = true →
      hasPrefix event.key (buildNamespacePrefix pre ns) = true := by
    intro dir hdir
    rw [hasPrefix_iff, String.toList_append] at hdir
    exact hasPrefix_iff.mpr ((List.prefix_append _ _).trans hdir)
  unfold isStateChange at h
  split at h
  · exact hdir "executors/" (by assumption)
  · split at h
    · exact hdir "drained_shards/" (by assumption)
    · cases h

/-- The namespace watch sees everything that has to be reported. -/
theorem hasNamespaceStateChanged_watched (s s' : Store (Value F)) :
    hasNamespaceStateChanged pre ns (watched pre ns s s') = hasNamespaceStateChanged pre ns (changes s s') := by
  rw [Bool.eq_iff_iff, hasNamespaceStateChanged, hasNamespaceStateChanged, List.any_eq_true, List.any_eq_true]
  constructor
  · rintro ⟨event, hevent, hchange⟩
    exact ⟨event, (List.mem_filter.mp hevent).1, hchange⟩
  · rintro ⟨event, hevent, hchange⟩
    exact ⟨event, List.mem_filter.mpr ⟨hevent, hasPrefix_namespace_of_isStateChange hchange⟩, hchange⟩

/-- What the writers keep up in the store. -/
structure StoreInv (pre ns : String) (sys : System F) : Prop where
  sound : sys.writers.Sound pre ns
  bare : NoBareKeys pre ns sys.store
  typed : WellTyped pre ns sys.store
  changed_pos : 0 < sys.changed
  changed_le : sys.changed ≤ sys.store.revision

omit [Encoding F] in
theorem storeInv_initial : StoreInv pre ns (initial : System F) where
  sound := fun _ hcall => absurd hcall List.not_mem_nil
  bare := fun _ _ => Store.get_empty _
  typed := wellTyped_empty
  changed_pos := Int.one_pos
  changed_le := le_rfl

variable [DecidableEq F]

/-- A write either shows on no stream or has to be reported. -/
theorem stored_cases {sys : System F} {writers : Writers F} (hinv : StoreInv pre ns sys)
    (hwritten : Written pre ns sys.store writers.store) :
    ((stored pre ns writers sys).changed = sys.changed ∧ SameView pre ns sys.store writers.store) ∨
      (stored pre ns writers sys).changed = writers.store.revision ∧
        sys.store.revision < writers.store.revision ∧
        hasNamespaceStateChanged pre ns (watched pre ns sys.store writers.store) = true := by
  unfold stored
  dsimp only
  cases hreported : hasNamespaceStateChanged pre ns (watched pre ns sys.store writers.store) with
  | false =>
    rw [hasNamespaceStateChanged_watched] at hreported
    exact .inl ⟨rfl, sameView_of_unreported hwritten hinv.typed hreported⟩
  | true =>
    refine .inr ⟨rfl, ?_, rfl⟩
    rcases hwritten with hsame | ⟨ops, -, happlied⟩
    · rw [hsame, watched, changes_self] at hreported
      cases hreported
    · refine lt_of_le_of_ne happlied.follows.revision_le fun heq => ?_
      rw [happlied.eq_of_revision heq.symm, watched, changes_self] at hreported
      cases hreported

theorem StoreInv.stored {sys : System F} {writers : Writers F} (hinv : StoreInv pre ns sys)
    (hwritten : Written pre ns sys.store writers.store) (hsound : writers.Sound pre ns) :
    StoreInv pre ns (stored pre ns writers sys) where
  sound := hsound
  bare := noBareKeys_of_written hwritten hinv.bare
  typed := wellTyped_of_written hwritten hinv.typed
  changed_pos := by
    rcases stored_cases hinv hwritten with ⟨hchanged, -⟩ | ⟨hchanged, -⟩
    · rw [hchanged]
      exact hinv.changed_pos
    · rw [hchanged]
      exact writers.store.revision_pos
  changed_le := by
    rcases stored_cases hinv hwritten with ⟨hchanged, -⟩ | ⟨hchanged, -⟩
    · rw [hchanged]
      exact hinv.changed_le.trans (follows_of_written hwritten).revision_le
    · rw [hchanged]
      exact le_rfl

end Store

section Refresh

variable {order : RangeOrder} {fails : Bool} {s : Store (Value F)} {c c' : ShardCache} {refresh : Refresh}
  {outcome : Outcome} {notify : Bool}

/-- Everything a step of a refresh can do. -/
theorem advance_cases (h : refresh.advance pre ns order fails s c = (outcome, c', notify)) :
    (refresh = .started ∧ outcome = .finished true ∧ c' = c ∧ notify = false) ∨
    (refresh = .started ∧ c' = c ∧ notify = false ∧ ∃ state, getAssignmentState pre ns s = .ok state ∧
      outcome = .going (.read state)) ∨
    (notify = false ∧ ∃ state updated, refresh = .read state ∧ outcome = .going (.replaced updated) ∧
      applyNamespaceState order state c = (updated, c')) ∨
    ∃ updated, refresh = .replaced updated ∧ outcome = .finished false ∧ c' = c ∧ notify = updated := by
  cases refresh with
  | started =>
    dsimp only [Refresh.advance] at h
    split at h
    · cases h
      exact .inl ⟨rfl, rfl, rfl, rfl⟩
    · split at h
      · cases h
        exact .inl ⟨rfl, rfl, rfl, rfl⟩
      · rename_i state hread
        cases h
        exact .inr (.inl ⟨rfl, rfl, rfl, state, hread, rfl⟩)
  | read state =>
    cases h
    exact .inr (.inr (.inl ⟨rfl, state, _, rfl, rfl, rfl⟩))
  | replaced updated =>
    cases h
    exact .inr (.inr (.inr ⟨_, rfl, rfl, rfl, rfl⟩))

theorem applyNamespaceState_cases {state : AssignmentState} {updated : Bool}
    (h : applyNamespaceState order state c = (updated, c')) :
    (updated = false ∧ c' = c ∧ state.revision ≤ c.lastRevision) ∨
      updated = true ∧ c' = fromNamespaceState order state ∧ c.lastRevision < state.revision :=
  replaceNamespaceState_cases h

/-- The cache changes only to something newer, and that is then announced. -/
theorem advance_cache (h : refresh.advance pre ns order fails s c = (outcome, c', notify)) :
    c' = c ∨ c.lastRevision < c'.lastRevision ∧ outcome = .going (.replaced true) := by
  rcases advance_cases h with
    ⟨-, -, hsame, -⟩ | ⟨-, hsame, -⟩ | ⟨-, state, updated, -, rfl, happly⟩ | ⟨updated, -, -, hsame, -⟩
  · exact .inl hsame
  · exact .inl hsame
  · rcases applyNamespaceState_cases happly with ⟨-, hsame, -⟩ | ⟨rfl, rfl, hlt⟩
    · exact .inl hsame
    · exact .inr ⟨hlt, rfl⟩
  · exact .inl hsame

theorem advance_lastRevision (h : refresh.advance pre ns order fails s c = (outcome, c', notify)) :
    c.lastRevision ≤ c'.lastRevision := by
  rcases advance_cache h with rfl | ⟨hlt, -⟩
  · exact le_rfl
  · exact hlt.le

end Refresh

section Effect

/-- What the watch has not delivered yet has to be reported. A watch that is not
received from will be followed by a signal. -/
def Watcher.reports (pre ns : String) : Watcher F → Prop
  | .receiving queue => hasNamespaceStateChanged pre ns queue.flatten = true
  | _ => True

/-- What a stream does by itself. -/
inductive StreamMove (sys : System F) : Subscriber → Bool → Option Sent → Prop where
  | prepares (token : Bool) : StreamMove sys .preparing token sys.sent
  | snapshot (order : RangeOrder) :
      StreamMove sys (.sending ⟨watchResponse order sys.cache, sys.cache.lastRevision⟩) sys.token sys.sent
  | sends {sent : Sent} (hsending : sys.subscriber = .sending sent) : StreamMove sys .waiting sys.token (some sent)
  | closes (token : Bool) : StreamMove sys .absent token none

theorem reports_receive {queue : List (List (Event (Value F)))} (n : Nat)
    (h : hasNamespaceStateChanged pre ns queue.flatten = true) :
    hasNamespaceStateChanged pre ns (queue.drop n).flatten = true ∨
      hasNamespaceStateChanged pre ns (queue.take n).flatten = true := by
  rw [← List.take_append_drop n queue, List.flatten_append, hasNamespaceStateChanged, List.any_append,
    Bool.or_eq_true] at h
  exact h.symm

variable [DecidableEq F]

/-- Everything a step can do. -/
inductive Effect (pre ns : String) (sys : System F) : System F → Prop where
  | written {writers : Writers F} (hwritten : Written pre ns sys.store writers.store)
      (hsound : writers.Sound pre ns) : Effect pre ns sys (stored pre ns writers sys)
  | watching {watcher : Watcher F} {signal : Bool} (hsignal : sys.signal = true → signal = true)
      (hreports : sys.watcher.reports pre ns → watcher.reports pre ns ∨ signal = true) :
      Effect pre ns sys { sys with watcher, signal }
  | woken {failed : Bool} {signal : Bool} (hwaiting : sys.background = .waiting failed) :
      Effect pre ns sys { sys with signal, background := .refreshing .started }
  | refreshed {order : RangeOrder} {fails : Bool} {refresh : Refresh} {outcome : Outcome} {c : ShardCache}
      {notify : Bool} (hrefreshing : sys.background = .refreshing refresh)
      (hadvance : refresh.advance pre ns order fails sys.store sys.cache = (outcome, c, notify)) :
      Effect pre ns sys { sys with
        background := outcome.background
        cache := c
        token := sys.subscriber.notified notify sys.token }
  | missed : Effect pre ns sys { sys with misses := sys.misses ++ [.started] }
  | refreshedMiss {i : Nat} {order : RangeOrder} {fails : Bool} {refresh : Refresh} {outcome : Outcome}
      {c : ShardCache} {notify : Bool} (hmiss : sys.misses[i]? = some refresh)
      (hadvance : refresh.advance pre ns order fails sys.store sys.cache = (outcome, c, notify)) :
      Effect pre ns sys { sys with
        misses := outcome.misses i sys.misses
        cache := c
        token := sys.subscriber.notified notify sys.token }
  | streaming {subscriber : Subscriber} {token : Bool} {sent : Option Sent}
      (hmove : StreamMove sys subscriber token sent) :
      Effect pre ns sys { sys with subscriber, token, sent }

/-- Operations are called with proper executor IDs. -/
def Label.Proper : Label F → Prop
  | .write label => label.SlashFreeIDs
  | _ => True

instance (label : Label F) : Decidable label.Proper :=
  match label with
  | .write label => inferInstanceAs (Decidable label.SlashFreeIDs)
  | .watch | .watchSignal | .receive _ | .watchFails | .wake _ | .refresh .. | .miss | .refreshMiss .. | .subscribe
  | .snapshot _ | .sendDone | .receiveToken | .close => inferInstanceAs (Decidable True)

variable [Float64 F]

theorem effect_of_step {sys sys' : System F} {label : Label F} (hinv : StoreInv pre ns sys) (hproper : label.Proper)
    (h : step pre ns label sys = some sys') : Effect pre ns sys sys' := by
  cases label with
  | write label =>
    obtain ⟨writers, hwrite, rfl⟩ := Option.map_eq_some_iff.mp h
    obtain ⟨hwritten, hsound⟩ := write_written hinv.sound hproper hwrite
    exact .written hwritten hsound
  | watch =>
    dsimp only [step] at h
    split at h
    · cases h
      exact .watching id fun _ => .inl trivial
    · cases h
  | watchSignal =>
    dsimp only [step] at h
    split at h
    · cases h
      exact .watching (fun _ => rfl) fun _ => .inr rfl
    · cases h
  | receive n =>
    dsimp only [step] at h
    split at h
    · rename_i queue hqueue
      cases h
      refine .watching (fun hsignal => by rw [hsignal, Bool.true_or]) fun hreports => ?_
      rw [hqueue] at hreports
      exact (reports_receive n hreports).imp_right fun hreported => by rw [hreported, Bool.or_true]
    · cases h
  | watchFails =>
    dsimp only [step] at h
    split at h
    · cases h
      exact .watching id fun _ => .inl trivial
    · cases h
  | wake timer =>
    dsimp only [step] at h
    split at h
    · rename_i failed hwaiting
      split at h
      · cases h
        exact .woken hwaiting
      · split at h
        · cases h
          exact .woken hwaiting
        · cases h
    · cases h
  | refresh order fails =>
    dsimp only [step] at h
    split at h
    · rename_i refresh hrefreshing
      cases h
      exact .refreshed hrefreshing rfl
    · cases h
  | miss =>
    cases h
    exact .missed
  | refreshMiss i order fails =>
    dsimp only [step] at h
    split at h
    · rename_i refresh hmiss
      cases h
      exact .refreshedMiss hmiss rfl
    · cases h
  | subscribe =>
    dsimp only [step] at h
    split at h
    · cases h
      exact .streaming (.prepares _)
    · cases h
  | snapshot order =>
    dsimp only [step] at h
    split at h
    · cases h
      exact .streaming (.snapshot order)
    · cases h
  | sendDone =>
    dsimp only [step] at h
    split at h
    · rename_i sent hsending
      cases h
      exact .streaming (.sends hsending)
    · cases h
  | receiveToken =>
    dsimp only [step] at h
    split at h
    · split at h
      · cases h
        exact .streaming (.prepares _)
      · cases h
    · cases h
  | close =>
    cases h
    exact .streaming (.closes _)

end Effect

section Kept

variable [DecidableEq F] {sys sys' : System F}

theorem StoreInv.effect (hinv : StoreInv pre ns sys) (h : Effect pre ns sys sys') : StoreInv pre ns sys' := by
  cases h with
  | written hwritten hsound => exact hinv.stored hwritten hsound
  | watching => exact { hinv with }
  | woken => exact { hinv with }
  | refreshed => exact { hinv with }
  | missed => exact { hinv with }
  | refreshedMiss => exact { hinv with }
  | streaming => exact { hinv with }

/-- A step raises the revision of the last reported change, or it changes
nothing that a stream shows. -/
theorem sameView_of_effect (hinv : StoreInv pre ns sys) (h : Effect pre ns sys sys') :
    sys.store.revision ≤ sys'.store.revision ∧
      (sys.store.revision < sys'.changed ∨ sys'.changed = sys.changed ∧ SameView pre ns sys.store sys'.store) := by
  cases h with
  | @written writers hwritten hsound =>
    refine ⟨(follows_of_written hwritten).revision_le, ?_⟩
    rcases stored_cases hinv hwritten with hsame | ⟨hchanged, hlt, -⟩
    · exact .inr hsame
    · exact .inl (hchanged ▸ hlt)
  | watching => exact ⟨le_rfl, .inr ⟨rfl, .refl _⟩⟩
  | woken => exact ⟨le_rfl, .inr ⟨rfl, .refl _⟩⟩
  | refreshed => exact ⟨le_rfl, .inr ⟨rfl, .refl _⟩⟩
  | missed => exact ⟨le_rfl, .inr ⟨rfl, .refl _⟩⟩
  | refreshedMiss => exact ⟨le_rfl, .inr ⟨rfl, .refl _⟩⟩
  | streaming => exact ⟨le_rfl, .inr ⟨rfl, .refl _⟩⟩

theorem lastRevision_le_of_effect (h : Effect pre ns sys sys') : sys.cache.lastRevision ≤ sys'.cache.lastRevision := by
  cases h with
  | written => exact le_rfl
  | watching => exact le_rfl
  | woken => exact le_rfl
  | refreshed hrefreshing hadvance => exact advance_lastRevision hadvance
  | missed => exact le_rfl
  | refreshedMiss hmiss hadvance => exact advance_lastRevision hadvance
  | streaming => exact le_rfl

end Kept

section Reported

variable {sys sys' : System F}

/-- The refresh loop will read the store again, or it has read the last
reported change. -/
def Background.covers (changed : Int) : Background → Prop
  | .waiting failed => failed = true
  | .refreshing .started => True
  | .refreshing (.read state) => changed ≤ state.revision
  | .refreshing (.replaced _) => False

/-- The cache has the last reported change, or something is on its way that
makes it read the store again. -/
def Reported (pre ns : String) (sys : System F) : Prop :=
  sys.changed ≤ sys.cache.lastRevision ∨ sys.watcher.reports pre ns ∨ sys.signal = true ∨
    sys.background.covers sys.changed

theorem reports_push {watcher : Watcher F} {events : List (Event (Value F))}
    (h : watcher.reports pre ns ∨ hasNamespaceStateChanged pre ns events = true) :
    (watcher.push events).reports pre ns := by
  cases watcher with
  | down => trivial
  | established queue => trivial
  | receiving queue =>
    rw [Watcher.push, Watcher.reports, List.flatten_append, List.flatten_singleton, hasNamespaceStateChanged,
      List.any_append, Bool.or_eq_true]
    exact h

/-- A change that has to be reported is queued. -/
theorem reports_stored {writers : Writers F} (h : sys.watcher.reports pre ns ∨
      hasNamespaceStateChanged pre ns (watched pre ns sys.store writers.store) = true) :
    (stored pre ns writers sys).watcher.reports pre ns := by
  unfold stored
  dsimp only
  split
  · rename_i hempty
    rw [List.isEmpty_iff.mp hempty] at h
    exact h.resolve_right Bool.false_ne_true
  · exact reports_push h

variable [DecidableEq F]

theorem Reported.effect (hinv : StoreInv pre ns sys) (hreported : Reported pre ns sys) (h : Effect pre ns sys sys') :
    Reported pre ns sys' := by
  cases h with
  | @written writers hwritten hsound =>
    rcases stored_cases hinv hwritten with ⟨hchanged, -⟩ | ⟨-, -, hreports⟩
    · rw [Reported, hchanged]
      exact hreported.imp_right (Or.imp_left fun hreports => reports_stored (.inl hreports))
    · exact .inr (.inl (reports_stored (.inr hreports)))
  | watching hsignal hreports =>
    rcases hreported with hcached | hqueued | hsignalled | hcovered
    · exact .inl hcached
    · rcases hreports hqueued with hqueued' | hsignalled
      · exact .inr (.inl hqueued')
      · exact .inr (.inr (.inl hsignalled))
    · exact .inr (.inr (.inl (hsignal hsignalled)))
    · exact .inr (.inr (.inr hcovered))
  | woken => exact .inr (.inr (.inr trivial))
  | @refreshed order fails refresh outcome c notify hrefreshing hadvance =>
    rcases hreported with hcached | hqueued | hsignalled | hcovered
    · exact .inl (hcached.trans (advance_lastRevision hadvance))
    · exact .inr (.inl hqueued)
    · exact .inr (.inr (.inl hsignalled))
    · rw [hrefreshing] at hcovered
      rcases advance_cases hadvance with ⟨-, rfl, -⟩ | ⟨-, -, -, state, hread, rfl⟩ |
        ⟨-, state, updated, rfl, -, happly⟩ | ⟨updated, rfl, -⟩
      · exact .inr (.inr (.inr rfl))
      · refine .inr (.inr (.inr ?_))
        change sys.changed ≤ state.revision
        rw [(getAssignmentState_describes hread).1.revision]
        exact hinv.changed_le
      -- What was read is in the cache now, or something newer was there before.
      · rcases applyNamespaceState_cases happly with ⟨-, rfl, hle⟩ | ⟨-, rfl, -⟩
        · exact .inl (le_trans hcovered hle)
        · exact .inl hcovered
      · exact hcovered.elim
  | missed => exact hreported
  | refreshedMiss hmiss hadvance => exact hreported.imp_left fun hcached => hcached.trans (advance_lastRevision hadvance)
  | streaming => exact hreported

end Reported

section Notified

variable {sys sys' : System F}

/-- A stream that has sent something as new as a revision will send again if
the cache is newer. -/
def Announced (sys : System F) (revision : Int) : Prop :=
  sys.cache.lastRevision ≤ revision ∨ sys.token = true ∨ sys.background = .refreshing (.replaced true) ∨
    .replaced true ∈ sys.misses

/-- What a stream has sent or is sending is what the cache has, or the stream
will be notified. -/
def Notified (sys : System F) : Prop :=
  match sys.subscriber with
  | .absent => True
  | .preparing => True
  | .sending sent => Announced sys sent.revision
  | .waiting => ∃ sent, sys.sent = some sent ∧ Announced sys sent.revision

theorem mem_misses_of_ne {misses : List Refresh} {i : Nat} {refresh other : Refresh} (outcome : Outcome)
    (hmiss : misses[i]? = some refresh) (hmem : other ∈ misses) (hne : other ≠ refresh) :
    other ∈ outcome.misses i misses := by
  obtain ⟨j, hj⟩ := List.mem_iff_getElem?.mp hmem
  have hij : i ≠ j := by
    rintro rfl
    exact hne (Option.some.inj (hj.symm.trans hmiss))
  cases outcome with
  | going next => exact List.mem_iff_getElem?.mpr ⟨j, (List.getElem?_set_ne hij).trans hj⟩
  | finished failed => exact List.mem_eraseIdx_iff_getElem?.mpr ⟨j, hij.symm, hj⟩

theorem mem_misses_going {misses : List Refresh} {i : Nat} {refresh : Refresh} (next : Refresh)
    (hmiss : misses[i]? = some refresh) : next ∈ (Outcome.going next).misses i misses := by
  obtain ⟨hlt, -⟩ := List.getElem?_eq_some_iff.mp hmiss
  exact List.mem_set hlt next

theorem notified_of_token {subscriber : Subscriber} {notify token : Bool} (hthere : subscriber ≠ .absent)
    (h : token = true ∨ notify = true) : subscriber.notified notify token = true := by
  cases subscriber with
  | absent => exact absurd rfl hthere
  | preparing => exact Bool.or_eq_true_iff.mpr h
  | sending sent => exact Bool.or_eq_true_iff.mpr h
  | waiting => exact Bool.or_eq_true_iff.mpr h

/-- A notification that was due before a refresh made its step is still due, or
it has been given, or it is due to the refresh. -/
theorem announced_of_advance {order : RangeOrder} {fails : Bool} {refresh : Refresh} {outcome : Outcome}
    {c : ShardCache} {notify : Bool} {revision : Int}
    (hadvance : refresh.advance pre ns order fails sys.store sys.cache = (outcome, c, notify))
    (h : sys.cache.lastRevision ≤ revision ∨ refresh = .replaced true) :
    c.lastRevision ≤ revision ∨ outcome = .going (.replaced true) ∨ notify = true := by
  rcases h with hsent | rfl
  · rcases advance_cache hadvance with rfl | ⟨-, houtcome⟩
    · exact .inl hsent
    · exact .inr (.inl houtcome)
  · cases hadvance
    exact .inr (.inr rfl)

theorem Announced.of_advance {order : RangeOrder} {fails : Bool} {refresh : Refresh} {outcome : Outcome}
    {c : ShardCache} {notify : Bool} {revision : Int} (h : Announced sys revision) (hthere : sys.subscriber ≠ .absent)
    (hadvance : refresh.advance pre ns order fails sys.store sys.cache = (outcome, c, notify))
    (hcache : sys'.cache = c) (htoken : sys'.token = sys.subscriber.notified notify sys.token)
    (hgoing : outcome = .going (.replaced true) →
      sys'.background = .refreshing (.replaced true) ∨ .replaced true ∈ sys'.misses)
    (hothers : sys.background = .refreshing (.replaced true) ∨ .replaced true ∈ sys.misses →
      refresh = .replaced true ∨ sys'.background = .refreshing (.replaced true) ∨ .replaced true ∈ sys'.misses) :
    Announced sys' revision := by
  have hdue (hdue : sys.cache.lastRevision ≤ revision ∨ refresh = .replaced true) : Announced sys' revision := by
    rcases announced_of_advance hadvance hdue with hsent | hgoes | hnotify
    · exact .inl (hcache ▸ hsent)
    · exact .inr (.inr (hgoing hgoes))
    · exact .inr (.inl (htoken.trans (notified_of_token hthere (.inr hnotify))))
  rcases h with hsent | hgiven | hreplaced
  · exact hdue (.inl hsent)
  · exact .inr (.inl (htoken.trans (notified_of_token hthere (.inl hgiven))))
  · rcases hothers hreplaced with heq | hreplaced
    · exact hdue (.inr heq)
    · exact .inr (.inr hreplaced)

omit [Encoding F] in
/-- Steps of others keep what a stream can rely on. -/
theorem Notified.of_announced (hnotified : Notified sys) (hsubscriber : sys'.subscriber = sys.subscriber)
    (hsent : sys'.sent = sys.sent)
    (h : ∀ revision, sys.subscriber ≠ .absent → Announced sys revision → Announced sys' revision) :
    Notified sys' := by
  unfold Notified at hnotified ⊢
  rw [hsubscriber]
  split at hnotified
  · trivial
  · trivial
  · exact h _ (by simp [*]) hnotified
  · obtain ⟨sent, hlast, hannounced⟩ := hnotified
    exact ⟨sent, hsent.trans hlast, h _ (by simp [*]) hannounced⟩

omit [Encoding F] in
theorem Notified.streaming {subscriber : Subscriber} {token : Bool} {sent : Option Sent} (hnotified : Notified sys)
    (h : StreamMove sys subscriber token sent) : Notified { sys with subscriber, token, sent } := by
  cases h with
  | prepares => trivial
  | snapshot order => exact .inl le_rfl
  | sends hsending =>
    rw [Notified, hsending] at hnotified
    exact ⟨_, rfl, hnotified⟩
  | closes => trivial

variable [DecidableEq F]

theorem Notified.effect (hnotified : Notified sys) (h : Effect pre ns sys sys') : Notified sys' := by
  cases h with
  | written => exact hnotified.of_announced rfl rfl fun _ _ => id
  | watching => exact hnotified.of_announced rfl rfl fun _ _ => id
  | woken hwaiting =>
    refine hnotified.of_announced rfl rfl fun revision _ hannounced => ?_
    rcases hannounced with hsent | htoken | hreplaced | hmissed
    · exact .inl hsent
    · exact .inr (.inl htoken)
    · rw [hwaiting] at hreplaced
      cases hreplaced
    · exact .inr (.inr (.inr hmissed))
  | refreshed hrefreshing hadvance =>
    refine hnotified.of_announced rfl rfl fun _ hthere h => h.of_advance hthere hadvance rfl rfl ?_ ?_
    · rintro rfl
      exact .inl rfl
    · rintro (hreplaced | hmissed)
      · rw [hrefreshing, Background.refreshing.injEq] at hreplaced
        exact .inl hreplaced
      · exact .inr (.inr hmissed)
  | missed =>
    refine hnotified.of_announced rfl rfl fun revision _ hannounced => ?_
    exact hannounced.imp_right (Or.imp_right (Or.imp_right (List.mem_append_left _)))
  | @refreshedMiss _ _ _ refresh outcome _ _ hmiss hadvance =>
    refine hnotified.of_announced rfl rfl fun _ hthere h => h.of_advance hthere hadvance rfl rfl ?_ ?_
    · rintro rfl
      exact .inr (mem_misses_going _ hmiss)
    · rintro (hreplaced | hmissed)
      · exact .inr (.inl hreplaced)
      · by_cases hself : Refresh.replaced true = refresh
        · exact .inl hself.symm
        · exact .inr (.inr (mem_misses_of_ne outcome hmiss hmissed hself))
  | streaming hmove => exact hnotified.streaming hmove

end Notified

end stream
