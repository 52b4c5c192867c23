import ShardManager.ExecutorStore.Entries
import ShardManager.Leader.Pass
import ShardManager.Process.Settled
import ShardManager.Replicas.Effect

open golang etcd etcdkeys store plan executorstore common

namespace leader

open etcdtypes (Value Encoding)

variable {F : Type} {pre ns : String} {s s' : Store (Value F)}

section Sweep

variable [Encoding F]

/-- The effect of a pass on everything but assignments: the executors it removes
are gone, nobody joins, other executors keep their heartbeats, and keys of
other directories are as they were. -/
structure Sweeps (pre ns : String) (removed : Map String Int) (state : NamespaceState F)
    (s s' : Store (Value F)) : Prop where
  gone : ∀ {executorID kt key}, executorID ∈ removed → parseExecutorKey pre ns key = .ok (executorID, kt) →
    s'.get key = none
  known : ∀ {executorID kt key}, parseExecutorKey pre ns key = .ok (executorID, kt) → s'.get key ≠ none →
    s.get key ≠ none ∨ executorID ∈ state.executors
  kept : ∀ {executorID kt}, SlashFree executorID → executorID ∉ removed → kt.Known → kt ≠ .assignedState →
    kt ≠ .shardStatistics → s'.get (buildExecutorKey pre ns executorID kt) = s.get (buildExecutorKey pre ns executorID kt)
  elsewhere : ∀ {key}, hasPrefix key (buildExecutorsPrefix pre ns) = false →
    key ≠ buildAssignmentVersionKey pre ns → s'.get key = s.get key

namespace Sweeps

variable {removed : Map String Int} {state state' : NamespaceState F} {order order' : RangeOrder}
  (h : Sweeps pre ns removed state s s')

include h

theorem sameHeartbeat (hread : getState pre ns order s = .ok state) (hread' : getState pre ns order' s' = .ok state')
    {executorID : String} (hnot : executorID ∉ removed) {heartbeat heartbeat' : HeartbeatState F}
    (hlookup : state.executors.lookup executorID = some heartbeat)
    (hlookup' : state'.executors.lookup executorID = some heartbeat') :
    process.SameHeartbeat heartbeat heartbeat' := by
  have hid : SlashFree executorID := (getState_describes hread).2 (Map.mem_iff_exists_lookup.mpr ⟨_, hlookup⟩)
  obtain ⟨hlast, hstatus, hreports, hhost⟩ := heartbeat_of_lookup hread hlookup
  obtain ⟨hlast', hstatus', hreports', hhost'⟩ := heartbeat_of_lookup hread' hlookup'
  have hkept : ∀ kt : ExecutorKeyType, kt.Known → kt ≠ .assignedState → kt ≠ .shardStatistics →
      s'.get (buildExecutorKey pre ns executorID kt) = s.get (buildExecutorKey pre ns executorID kt) :=
    fun kt hkt hassigned hstatistics => h.kept hid hnot hkt hassigned hstatistics
  refine ⟨?_, ?_, ?_, ?_⟩
  · rw [hlast', hlast, lastHeartbeatAt, hkept .heartbeat (by trivial) (by decide) (by decide), lastHeartbeatAt]
  · rw [hstatus', hstatus, statusAt, hkept .status (by trivial) (by decide) (by decide), statusAt]
  · rw [hreports', hreports, reportedShardsAt,
      hkept .reportedShards (by trivial) (by decide) (by decide), reportedShardsAt]
  · rw [hhost', hhost, hostMetadataAt, hkept .hostMetadata (by trivial) (by decide) (by decide),
      hostMetadataAt]

/-- What the next read sees of the executors and the drains. -/
theorem outlives (hread : getState pre ns order s = .ok state) (hread' : getState pre ns order' s' = .ok state') :
    process.Outlives removed state state' where
  heartbeat := by
    intro executorID heartbeat' hlookup'
    obtain ⟨key, kt, hkey, hknown, hget⟩ :=
      (mem_executors_iff hread').mp (Map.mem_iff_exists_lookup.mpr ⟨_, hlookup'⟩)
    have hnot : executorID ∉ removed := fun hremoved => hget (h.gone hremoved hkey)
    have hmem : executorID ∈ state.executors := by
      rcases h.known hkey hget with hbefore | hmem
      · exact (mem_executors_iff hread).mpr ⟨key, kt, hkey, hknown, hbefore⟩
      · exact hmem
    obtain ⟨heartbeat, hlookup⟩ := Map.mem_iff_exists_lookup.mp hmem
    exact ⟨hnot, heartbeat, hlookup, h.sameHeartbeat hread hread' hnot hlookup hlookup'⟩
  assignable := by
    intro executorID hassignable
    obtain ⟨heartbeat, hlookup, hactive, -, hnot⟩ := NamespaceState.assignable_iff.mp hassignable
    have hid := (getState_describes hread).2 (Map.mem_iff_exists_lookup.mpr ⟨_, hlookup⟩)
    have hknown : ExecutorKeyType.status.Known := by trivial
    -- Being ACTIVE takes a status key, which is still there.
    have hget : s.get (buildExecutorKey pre ns executorID .status) ≠ none := by
      intro hnone
      rw [(heartbeat_of_lookup hread hlookup).2.1, statusAt, hnone] at hactive
      cases hactive
    refine (mem_executors_iff hread').mpr ⟨_, .status, parseExecutorKey_buildExecutorKey hid hknown, hknown, ?_⟩
    rwa [h.kept hid hnot hknown (by decide) (by decide)]
  drainedShards := by
    intro shardID
    have hkey : hasPrefix (buildDrainedShardKey pre ns shardID) (buildDrainedShardsPrefix pre ns) = true :=
      hasPrefix_append _ _
    have hget := h.elsewhere (not_hasPrefix_of_dir (by decide) (by decide) hkey)
      (assignmentVersionKey_ne_of_dir "drained_shards/" (by decide) hkey)
    rw [NamespaceState.isShardDrained, NamespaceState.isShardDrained, decide_eq_decide,
      (getState_describes hread).1.drained, (getState_describes hread').1.drained, DrainedAt, DrainedAt, hget]
  drainedHosts := by
    intro host
    have hkey : hasPrefix (buildDrainedHostKey pre ns host) (buildDrainedHostsPrefix pre ns) = true :=
      hasPrefix_append _ _
    have hget := h.elsewhere (not_hasPrefix_of_dir (by decide) (by decide) hkey)
      (assignmentVersionKey_ne_of_dir "drained_hosts/" (by decide) hkey)
    rw [NamespaceState.isHostDrained, NamespaceState.isHostDrained, decide_eq_decide,
      mem_drainedHosts_iff hread, mem_drainedHosts_iff hread', hget]

end Sweeps

section Delete

variable {stale : Map String Int} {state : NamespaceState F} {order : RangeOrder}

/-- No key of the executor is left. -/
def Gone (pre ns executorID : String) (s : Store (Value F)) : Prop :=
  ∀ key, hasPrefix key (buildExecutorIDPrefix pre ns executorID) = true →
    key ≠ buildAssignmentVersionKey pre ns → s.get key = none

/-- The keys of the executor are as they were. -/
def Intact (pre ns executorID : String) (s s' : Store (Value F)) : Prop :=
  ∀ key, hasPrefix key (buildExecutorIDPrefix pre ns executorID) = true →
    key ≠ buildAssignmentVersionKey pre ns → s'.get key = s.get key

omit [Encoding F] in
theorem exists_deletion {executorIDs : List String} {batch : List (Op (Value F))}
    (hbatch : ∀ op ∈ batch, op ∈ executorIDs.map (deletion pre ns)) :
    ∀ op ∈ batch, ∃ executorID ∈ executorIDs, op = deletion pre ns executorID := by
  intro op hop
  obtain ⟨executorID, hmem, rfl⟩ := List.mem_map.mp (hbatch op hop)
  exact ⟨executorID, hmem, rfl⟩

variable [DecidableEq F]

variable {executorIDs : List String} {maxEtcdTxnOps : Int} {guard : Guarded (Value F)}
  {fates : List Fate} {ended : CommitOps.Ended (Value F)}
  (h : (deleteExecutors pre ns maxEtcdTxnOps executorIDs guard).finish fates s = some ended)

include h

omit [Encoding F] in
theorem get_of_deleteExecutors {key : String} (hversion : key ≠ buildAssignmentVersionKey pre ns)
    (hkey : ∀ executorID ∈ executorIDs, hasPrefix key (buildExecutorIDPrefix pre ns executorID) = false) :
    ended.store.get key = s.get key := by
  rw [deleteExecutors_eq] at h
  refine finish_invariant h (fun x => x.get key = s.get key) ?_ rfl
  intro batch a b hbatch happlied ha
  rw [← ha]
  exact get_of_deletions (exists_deletion hbatch) happlied hversion fun executorID hid _ => hkey executorID hid

omit [Encoding F] in
/-- A call that fails has removed each executor wholly or not at all. -/
theorem intact_or_gone (hids : ∀ executorID ∈ executorIDs, SlashFree executorID) {executorID : String}
    (hid : SlashFree executorID) : Intact pre ns executorID s ended.store ∨ Gone pre ns executorID ended.store := by
  rw [deleteExecutors_eq] at h
  refine finish_invariant h (fun x => Intact pre ns executorID s x ∨ Gone pre ns executorID x) ?_ (.inl fun _ _ _ => rfl)
  intro batch a b hbatch happlied ha
  by_cases hdeleted : deletion pre ns executorID ∈ batch
  · exact .inr fun _ hkey _ => happlied.get_of_deleted (List.mem_append_left _ hdeleted) hkey
  -- The keys of one executor are not below the prefix of another.
  have hkept : ∀ {key}, hasPrefix key (buildExecutorIDPrefix pre ns executorID) = true →
      key ≠ buildAssignmentVersionKey pre ns → b.get key = a.get key := by
    intro key hkey hversion
    refine get_of_deletions (exists_deletion hbatch) happlied hversion fun other hother hmem =>
      Bool.eq_false_iff.mpr fun hboth => ?_
    rw [← append_trimPrefix hkey, hasPrefix_executorID_iff hid (hids other hother)] at hboth
    exact hdeleted (hboth ▸ hmem)
  exact ha.imp (fun hintact key hkey hversion => (hkept hkey hversion).trans (hintact key hkey hversion))
    (fun hgone key hkey hversion => (hkept hkey hversion).trans (hgone key hkey hversion))

omit [Encoding F] in
/-- A call that does not fail has removed them all. -/
theorem gone_of_deleteExecutors (herr : ended.err = none) {executorID : String} (hmem : executorID ∈ executorIDs) :
    Gone pre ns executorID ended.store := by
  intro key hkey hversion
  rw [deleteExecutors_eq] at h
  refine finish_establishes h herr (List.mem_map_of_mem hmem) (fun x => x.get key = none) ?_ ?_
  · intro batch a b hbatch happlied ha
    rcases happlied.get_cases key with ⟨value, hput, -⟩ | hnone | hsame
    · rcases List.mem_append.mp hput with hop | hop
      · obtain ⟨_, -, heq⟩ := List.mem_map.mp (hbatch _ hop)
        cases heq
      · rw [List.mem_singleton, touchAssignmentVersion, Op.put.injEq] at hop
        exact absurd hop.1 hversion
    · exact hnone
    · exact hsame.trans ha
  · intro batch a b hop happlied
    exact happlied.get_of_deleted (List.mem_append_left _ hop) hkey

/-- Deleting the stale executors touches nothing else, and removes all of them
unless the call fails. -/
theorem sweeps_deleteExecutors (hread : getState pre ns order s = .ok state)
    (hstale : ∀ executorID ∈ stale, executorID ∈ state.executors)
    (hids : ∀ executorID, executorID ∈ executorIDs ↔ executorID ∈ stale) :
    ∃ removed : Map String Int, (∀ executorID ∈ removed, executorID ∈ stale) ∧ (ended.err = none → removed = stale) ∧
      Sweeps pre ns removed state s ended.store ∧
      ∀ {executorID}, SlashFree executorID → executorID ∉ removed → Intact pre ns executorID s ended.store := by
  have hslash : ∀ executorID ∈ executorIDs, SlashFree executorID :=
    fun executorID hmem => (getState_describes hread).2 (hstale executorID ((hids executorID).mp hmem))
  have hwhole : ∀ executorID ∈ stale,
      Intact pre ns executorID s ended.store ∨ Gone pre ns executorID ended.store :=
    fun executorID hmem => intact_or_gone h hslash (hslash executorID ((hids executorID).mpr hmem))
  obtain ⟨removed, hremoved, hall, hgone, hintact⟩ : ∃ removed : Map String Int,
      (∀ executorID ∈ removed, executorID ∈ stale) ∧ (ended.err = none → removed = stale) ∧
      (∀ executorID ∈ removed, Gone pre ns executorID ended.store) ∧
      ∀ executorID ∈ stale, executorID ∉ removed → Intact pre ns executorID s ended.store := by
    by_cases herr : ended.err = none
    · exact ⟨stale, fun _ hmem => hmem, fun _ => rfl,
        fun executorID hmem => gone_of_deleteExecutors h herr ((hids executorID).mpr hmem),
        fun _ hmem hnot => absurd hmem hnot⟩
    · classical
      refine ⟨stale.filterKeys fun executorID => decide (Gone pre ns executorID ended.store),
        fun executorID hmem => (Map.mem_filterKeys.mp hmem).2, fun hnone => absurd hnone herr,
        fun executorID hmem => of_decide_eq_true (Map.mem_filterKeys.mp hmem).1, fun executorID hmem hnot => ?_⟩
      refine (hwhole executorID hmem).resolve_right fun hgone => hnot ?_
      exact Map.mem_filterKeys.mpr ⟨decide_eq_true hgone, hmem⟩
  have hframe : ∀ {key}, (∀ executorID ∈ removed, hasPrefix key (buildExecutorIDPrefix pre ns executorID) = false) →
      key ≠ buildAssignmentVersionKey pre ns → ended.store.get key = s.get key := by
    intro key hkey hversion
    by_cases hexecutor : ∃ executorID ∈ stale, hasPrefix key (buildExecutorIDPrefix pre ns executorID) = true
    · obtain ⟨executorID, hmem, hprefixed⟩ := hexecutor
      refine hintact executorID hmem (fun hgone => ?_) key hprefixed hversion
      rw [hkey executorID hgone] at hprefixed
      cases hprefixed
    · refine get_of_deleteExecutors h hversion fun executorID hmem => Bool.eq_false_iff.mpr fun hprefixed => ?_
      exact hexecutor ⟨executorID, (hids executorID).mp hmem, hprefixed⟩
  have hothers : ∀ {executorID}, SlashFree executorID → executorID ∉ removed →
      Intact pre ns executorID s ended.store := by
    intro executorID hid hnot key hkey hversion
    refine hframe (fun other hother => Bool.eq_false_iff.mpr fun hboth => ?_) hversion
    rw [← append_trimPrefix hkey, hasPrefix_executorID_iff hid (hslash other ((hids other).mpr (hremoved other hother)))]
      at hboth
    exact hnot (hboth ▸ hother)
  refine ⟨removed, hremoved, hall, ⟨?_, ?_, ?_, ?_⟩, hothers⟩
  · intro executorID kt key hmem hkey
    obtain ⟨hprefixed, -, hversion⟩ := hasPrefix_of_parse hkey
    exact hgone executorID hmem key hprefixed hversion
  · intro executorID kt key hkey hget
    have hversion := (hasPrefix_of_parse hkey).2.2
    left
    by_cases hprefixed : ∃ e ∈ removed, hasPrefix key (buildExecutorIDPrefix pre ns e) = true
    · obtain ⟨e, he, hprefixed⟩ := hprefixed
      exact absurd (hgone e he key hprefixed hversion) hget
    · rw [← hframe (fun e he => Bool.eq_false_iff.mpr fun hp => hprefixed ⟨e, he, hp⟩) hversion]
      exact hget
  · intro executorID kt hid hnot _ _ _
    exact hothers hid hnot _ (hasPrefix_append _ _)
      (executorKey_ne_version executorID kt)
  · intro key hdir hversion
    refine hframe (fun e he => Bool.eq_false_iff.mpr fun hp => ?_) hversion
    rw [hasPrefix_executorsPrefix_of_executorID hp] at hdir
    cases hdir

end Delete

section Statistics

variable [Float64 F]

omit [Encoding F] in
/-- The batch replaces the statistics of the executors it is about, and puts
nothing where an update is empty. -/
theorem get_recordShardStatisticsBatch [DecidableEq F] (updates : List (ExecutorShardStatistics F))
    (fates : String → Fate) (s : Store (Value F)) (key : String) :
    (recordShardStatisticsBatch pre ns updates fates s).get key = s.get key ∨
      ∃ update ∈ updates, key = statisticsKey pre ns update.executorID ∧
        ((recordShardStatisticsBatch pre ns updates fates s).get key = none ∨ update.statistics.toList ≠ []) := by
  induction updates generalizing s with
  | nil => exact .inl rfl
  | cons update updates ih =>
    rcases hcall : recordShardStatisticsUpdate pre ns update.executorID update.statistics
      (fates update.executorID) s with ⟨result, next⟩
    have hbatch : recordShardStatisticsBatch pre ns (update :: updates) fates s =
        recordShardStatisticsBatch pre ns updates fates next := by
      rw [recordShardStatisticsBatch, List.foldl_cons, hcall, recordShardStatisticsBatch]
    rw [hbatch]
    have hfirst : next.get key = s.get key ∨ key = statisticsKey pre ns update.executorID ∧
        (next.get key = none ∨ update.statistics.toList ≠ []) := by
      by_cases hkey : key = statisticsKey pre ns update.executorID
      · subst hkey
        rcases recordShardStatisticsUpdate_cases hcall with ⟨rfl, -⟩ | ⟨-, happlied⟩ | ⟨hne, -⟩
        · exact .inl rfl
        · exact .inr ⟨rfl, .inl (happlied.get_of_deleted (List.mem_singleton_self _) (decide_eq_true rfl))⟩
        · exact .inr ⟨rfl, .inr hne⟩
      · left
        rcases recordShardStatisticsUpdate_cases hcall with ⟨rfl, -⟩ | ⟨-, happlied⟩ | ⟨-, happlied⟩
        · rfl
        · refine happlied.get_of_not_touches fun htouch => hkey ?_
          exact of_decide_eq_true (touches_delete_iff.mp htouch)
        · exact happlied.get_of_not_touches fun htouch => hkey (touches_put_iff.mp htouch)
    rcases ih next with hsame | ⟨later, hmem, hkey, hlater⟩
    · rcases hfirst with hnext | ⟨hkey, hnone | hne⟩
      · exact .inl (hsame.trans hnext)
      · exact .inr ⟨update, List.mem_cons_self, hkey, .inl (hsame.trans hnone)⟩
      · exact .inr ⟨update, List.mem_cons_self, hkey, .inr hne⟩
    · exact .inr ⟨later, List.mem_cons_of_mem _ hmem, hkey, hlater⟩

omit [Encoding F] in
theorem mem_statisticsUpdates {choices : process.Choices} {cfg : process.Config F} {state : NamespaceState F}
    {request : AssignShardsRequest F} {update : ExecutorShardStatistics F}
    (h : update ∈ statisticsUpdates choices cfg state request) :
    update.executorID ∈ greedy.findAffectedExecutors (state.shardOwners choices.order)
        request.newState.shardAssignments ∧
      (update.statistics.toList ≠ [] → update.executorID ∈ request.newState.shardAssignments) := by
  unfold statisticsUpdates loadbalancer.prepareAssignmentStatistics at h
  cases hmode : cfg.loadBalancing.mode <;> rw [hmode] at h
  case greedy =>
    obtain ⟨haffected, hlookup⟩ := greedy.mem_buildStatisticsUpdates h
    refine ⟨haffected, fun hne => ?_⟩
    obtain ⟨⟨shardID, statistic⟩, hentry⟩ := List.exists_mem_of_ne_nil _ hne
    have hsome := hlookup shardID
    rw [Map.mem_toList_iff.mp hentry] at hsome
    by_contra hnot
    rw [AList.lookup_eq_none.mpr hnot] at hsome
    cases hsome
  all_goals cases h

end Statistics

section Assign

variable [Float64 F] [LawfulFloat64 F] [DecidableEq F] {choices : process.Choices} {cfg : process.Config F}
  {state : NamespaceState F} {order : RangeOrder} {p : process.Planned} {shards available : List String}

omit [LawfulFloat64 F] [DecidableEq F] in
/-- The executors a leader writes are in the snapshot and not stale. -/
theorem mem_executors_of_request {stale : Map String Int} (hread : getState pre ns order s = .ok state)
    (hallots : process.Allots choices cfg state stale p shards available) {executorID : String}
    (hmem : executorID ∈ (process.assignShardsRequest choices state stale p).newState.shardAssignments) :
    executorID ∈ state.executors ∧ executorID ∉ stale := by
  rcases hallots.mem_request.mp hmem with hassignable | hunassign
  · obtain ⟨heartbeat, hlookup, -, -, hnot⟩ := NamespaceState.assignable_iff.mp hassignable
    exact ⟨Map.mem_iff_exists_lookup.mpr ⟨_, hlookup⟩, hnot⟩
  · obtain ⟨⟨shardID, hstores⟩, -, hnot⟩ := (hallots.unassign executorID).mp hunassign
    obtain ⟨record, hlookup, -⟩ := NamespaceState.stores_iff.mp hstores
    obtain ⟨hheartbeat, -, hrecord⟩ := getState_entry hread executorID
    rw [hrecord] at hlookup
    obtain ⟨executorData, hstored, -⟩ := Option.bind_eq_some_iff.mp hlookup
    rw [hstored] at hheartbeat
    exact ⟨Map.mem_iff_exists_lookup.mpr ⟨_, hheartbeat⟩, hnot⟩

/-- A successful assignment and its statistics updates remove the stale
executors and leave the heartbeats of all others. -/
theorem sweeps_assignShards {request : AssignShardsRequest F} (fates : String → Fate)
    (hread : getState pre ns order s = .ok state)
    (hrequest : process.rebalanceShardsImpl choices cfg state = .ok (.assignShards request))
    (hassigned : Assigned pre ns request s s') :
    Sweeps pre ns (process.identifyStaleExecutors cfg.heartbeatTTL choices.now state) state s
      (recordShardStatisticsBatch pre ns (statisticsUpdates choices cfg state request) fates s') := by
  have hplan := replicas.plan_of_read hread hrequest
  obtain ⟨p, shards, available, hallots, rfl⟩ := replicas.allots_of_leader hrequest
  have hnew : ∀ {executorID}, executorID ∈ (process.assignShardsRequest choices state
        (process.identifyStaleExecutors cfg.heartbeatTTL choices.now state) p).newState.shardAssignments →
      executorID ∈ state.executors ∧
        executorID ∉ process.identifyStaleExecutors cfg.heartbeatTTL choices.now state :=
    mem_executors_of_request hread hallots
  generalize process.identifyStaleExecutors cfg.heartbeatTTL choices.now state = stale at *
  -- Statistics appear only for executors that are written.
  have hbatch : ∀ key, (recordShardStatisticsBatch pre ns (statisticsUpdates choices cfg state
        (process.assignShardsRequest choices state stale p)) fates s').get key = s'.get key ∨
      ∃ executorID, key = statisticsKey pre ns executorID ∧
        ((recordShardStatisticsBatch pre ns (statisticsUpdates choices cfg state
            (process.assignShardsRequest choices state stale p)) fates s').get key = none ∨
          executorID ∈ (process.assignShardsRequest choices state stale p).newState.shardAssignments) := by
    intro key
    rcases get_recordShardStatisticsBatch (statisticsUpdates choices cfg state
      (process.assignShardsRequest choices state stale p)) fates s' key with hsame | ⟨update, hmem, hkey, hcase⟩
    · exact .inl hsame
    · exact .inr ⟨update.executorID, hkey, hcase.imp_right (mem_statisticsUpdates hmem).2⟩
  have hparsed : ∀ {executorID kt other}, SlashFree other →
      parseExecutorKey pre ns (statisticsKey pre ns other) = .ok (executorID, kt) → other = executorID := by
    intro executorID kt other hid hkey
    rw [statisticsKey, parseExecutorKey_buildExecutorKey hid (by trivial), Except.ok.injEq, Prod.mk.injEq] at hkey
    exact hkey.1
  refine ⟨?_, ?_, ?_, ?_⟩
  · intro executorID kt key hstale hkey
    rcases hbatch key with hsame | ⟨other, rfl, hnone | hother⟩
    · rw [hsame]
      exact hassigned.deleted hstale (hasPrefix_of_parse hkey).1
    · exact hnone
    · obtain rfl := hparsed (hplan.slashFree (.inr hother)) hkey
      exact absurd hstale (hnew hother).2
  · intro executorID kt key hkey hget
    rcases hbatch key with hsame | ⟨other, rfl, hnone | hother⟩
    · rw [hsame] at hget
      by_cases hwritten : ∃ e ∈ (process.assignShardsRequest choices state stale p).newState.shardAssignments,
          key = assignedStateKey pre ns e
      · obtain ⟨e, he, rfl⟩ := hwritten
        rw [assignedStateKey, parseExecutorKey_buildExecutorKey (hplan.slashFree (.inr he)) (by trivial),
          Except.ok.injEq, Prod.mk.injEq] at hkey
        exact .inr (hkey.1 ▸ (hnew he).1)
      · left
        by_cases hdeleted : ∃ e ∈ stale, hasPrefix key (buildExecutorIDPrefix pre ns e) = true
        · obtain ⟨e, he, hkeyPrefix⟩ := hdeleted
          exact absurd (hassigned.deleted he hkeyPrefix) hget
        · rw [← hassigned.unchanged (fun e he => Bool.eq_false_iff.mpr fun hp => hdeleted ⟨e, he, hp⟩)
            (fun e he _ heq => hwritten ⟨e, he, heq⟩) (hasPrefix_of_parse hkey).2.2]
          exact hget
    · exact absurd hnone hget
    · obtain rfl := hparsed (hplan.slashFree (.inr hother)) hkey
      exact .inr (hnew hother).1
  · intro executorID kt hid hnot hknown hassignedState hstatistics
    have hkey : parseExecutorKey pre ns (buildExecutorKey pre ns executorID kt) = .ok (executorID, kt) :=
      parseExecutorKey_buildExecutorKey hid hknown
    rcases hbatch (buildExecutorKey pre ns executorID kt) with hsame | ⟨other, heq, -⟩
    · rw [hsame]
      refine hassigned.unchanged (fun e he => Bool.eq_false_iff.mpr fun hp => ?_) (fun e he _ heq => ?_)
        (hasPrefix_of_parse hkey).2.2
      · obtain rfl := (hasPrefix_buildExecutorKey_iff hid (hplan.slashFree (.inl he))).mp hp
        exact hnot he
      · exact hassignedState (buildExecutorKey_inj hknown ExecutorKeyType.known_assignedState heq).2
    · exact absurd (buildExecutorKey_inj hknown (by trivial) heq).2 hstatistics
  · intro key hexecutors hversion
    have hne : ∀ executorID kt, key ≠ buildExecutorKey pre ns executorID kt := by
      rintro executorID kt rfl
      rw [hasPrefix_executorsPrefix_key] at hexecutors
      cases hexecutors
    rcases hbatch key with hsame | ⟨other, heq, -⟩
    · rw [hsame]
      refine hassigned.unchanged (fun e he => Bool.eq_false_iff.mpr fun hp => ?_) (fun e he _ => hne e _) hversion
      rw [hasPrefix_executorsPrefix_of_executorID hp] at hexecutors
      cases hexecutors
    · exact absurd heq (hne other _)

section Records

variable {stale : Map String Int} {state' : NamespaceState F} {order' : RangeOrder} {s₁ : Store (Value F)}

omit [Float64 F] [LawfulFloat64 F] [DecidableEq F] in
/-- Two snapshots agree on a record whose key is the same. -/
theorem lookup_eq_of_get (hread : getState pre ns order s = .ok state) (hread' : getState pre ns order' s' = .ok state')
    {executorID : String}
    (hget : s'.get (assignedStateKey pre ns executorID) = s.get (assignedStateKey pre ns executorID)) :
    state'.shardAssignments.lookup executorID = state.shardAssignments.lookup executorID := by
  refine Option.ext fun record => ?_
  rw [(getState_describes hread).1.assignments, (getState_describes hread').1.assignments, RecordAt, RecordAt, hget]

omit [Float64 F] [LawfulFloat64 F] [DecidableEq F] in
/-- A stored record of READY shards is read as such. -/
theorem isUnchanged_of_value (hread : getState pre ns order s = .ok state) {executorID : String}
    (hid : SlashFree executorID) {record : AssignedState} {shardIDs : List String}
    (hvalue : (s.get (assignedStateKey pre ns executorID)).map (·.value) =
      some (.assignedState (etcdtypes.fromAssignedState record)))
    (hrecord : record.assignedShards = process.readyShards shardIDs) :
    process.isUnchanged state executorID shardIDs = true := by
  obtain ⟨kv, hget, hkv⟩ := Option.map_eq_some_iff.mp hvalue
  have hshards : ((etcdtypes.fromAssignedState record).toAssignedState kv.modRevision).assignedShards =
      Map.ofList (etcdtypes.jsonObject (process.readyShards shardIDs)) := by
    rw [← hrecord]
    rfl
  refine process.isUnchanged_iff.mpr
    ⟨_, ((getState_describes hread).1.assignments _ _).mpr ⟨hid, kv, _, hget, hkv, rfl⟩, ?_, ?_⟩
  · intro shardID
    rw [hshards, Map.mem_iff_exists_lookup, etcdtypes.lookup_ofList_jsonObject, ← Map.mem_iff_exists_lookup,
      process.mem_readyShards]
  · intro shardID assignment hassignment
    rw [hshards, etcdtypes.lookup_ofList_jsonObject, process.lookup_readyShards] at hassignment
    rw [hassignment.2]
    rfl

variable (hallots : process.Allots choices cfg state stale p shards available)
  (hassigned : Assigned pre ns (process.assignShardsRequest choices state stale p) s s₁)
  (hids : ∀ {executorID}, executorID ∈ replicas.compared (process.assignShardsRequest choices state stale p) →
    SlashFree executorID)
  (hrecords : ∀ executorID,
    s'.get (assignedStateKey pre ns executorID) = s₁.get (assignedStateKey pre ns executorID))
  (hread : getState pre ns order s = .ok state) (hread' : getState pre ns order' s' = .ok state')

include hassigned hids hrecords hread hread'

omit [Float64 F] [LawfulFloat64 F] [DecidableEq F] in
theorem lookup_eq_of_unwritten {executorID : String} (hid : SlashFree executorID) (hnot : executorID ∉ stale)
    (hwritten : executorID ∈ (process.assignShardsRequest choices state stale p).newState.shardAssignments →
      isWritten (process.assignShardsRequest choices state stale p) executorID = false) :
    state'.shardAssignments.lookup executorID = state.shardAssignments.lookup executorID := by
  refine lookup_eq_of_get hread hread' ?_
  rw [hrecords]
  exact replicas.get_eq_of_unwritten hassigned hids hid hnot hwritten

include hallots

omit [LawfulFloat64 F] [DecidableEq F] in
/-- The next read finds every assignable executor with the shards it was given. -/
theorem isUnchanged_after {executorID : String} {shardIDs : List String}
    (hlookup : p.currentAssignments.lookup executorID = some shardIDs) :
    process.isUnchanged state' executorID shardIDs = true := by
  have hentry := hallots.lookup_request.mpr (.inl ⟨shardIDs, hlookup, rfl⟩)
  have hmem := Map.mem_iff_exists_lookup.mpr ⟨_, hentry⟩
  have hid := hids (.inr hmem)
  cases hwritten : isWritten (process.assignShardsRequest choices state stale p) executorID with
  | true =>
    have hget := hassigned.written hentry hwritten
    rw [← hrecords] at hget
    exact isUnchanged_of_value hread' hid (Option.map_eq_some_iff.mpr ⟨_, hget, rfl⟩) rfl
  | false =>
    have hnot := (mem_executors_of_request hread hallots hmem).2
    have hsame := lookup_eq_of_unwritten hassigned hids hrecords hread hread' hid hnot fun _ => hwritten
    have hunchanged := process.isUnchanged_of_not_written hlookup hwritten
    rw [process.isUnchanged, ← hsame] at hunchanged
    exact hunchanged

omit [LawfulFloat64 F] [DecidableEq F] in
/-- It finds nothing with anybody else. -/
theorem not_stores_after {executorID : String} (hnot : executorID ∉ p.currentAssignments) (shardID : String) :
    ¬state'.Stores executorID shardID := by
  intro hstores
  obtain ⟨record, hlookup, hshard⟩ := NamespaceState.stores_iff.mp hstores
  obtain ⟨hid, kv, stored, hget, hvalue, rfl⟩ := ((getState_describes hread').1.assignments _ _).mp hlookup
  rw [hallots.distributes.keys] at hnot
  rw [hrecords] at hget
  by_cases hstale : executorID ∈ stale
  · have hkeyPrefix : hasPrefix (assignedStateKey pre ns executorID) (buildExecutorIDPrefix pre ns executorID) = true :=
      hasPrefix_append _ _
    rw [hassigned.deleted hstale hkeyPrefix] at hget
    cases hget
  by_cases hunassign : executorID ∈ p.executorsToUnassign
  · obtain ⟨revision, hrevision⟩ := Map.mem_iff_exists_lookup.mp hunassign
    have hentry := hallots.lookup_request.mpr (.inr ⟨revision, hrevision, rfl⟩)
    rw [hassigned.written hentry (process.isWritten_of_unassign hrevision), Option.some.injEq] at hget
    subst hget
    cases hvalue
    exact absurd hshard (AList.notMem_empty shardID)
  · have hmem : executorID ∉ (process.assignShardsRequest choices state stale p).newState.shardAssignments := by
      rw [hallots.mem_request]
      exact not_or.mpr ⟨hnot, hunassign⟩
    have hsame := lookup_eq_of_unwritten hassigned hids hrecords hread hread' hid hstale fun h => absurd h hmem
    rw [hsame] at hlookup
    refine hunassign ((hallots.unassign executorID).mpr ⟨⟨shardID, ?_⟩, hnot, hstale⟩)
    exact NamespaceState.stores_iff.mpr ⟨_, hlookup, hshard⟩

end Records

end Assign

end Sweep

end leader
