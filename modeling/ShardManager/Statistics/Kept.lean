import ShardManager.Statistics.Writes

open golang etcd etcdkeys store types executorstore handler transition

namespace shardstats

open etcdtypes (Value Encoding)

variable {F : Type} {pre ns : String} {s s' : Store (Value F)} {entry : Recorded}

section Entries

theorem holds_of_get_eq (h : entry.Holds pre ns s)
    (hget : s'.get (statisticsKey pre ns entry.executorID) = s.get (statisticsKey pre ns entry.executorID)) :
    entry.Holds pre ns s' := by
  rw [Recorded.Holds, statisticsAt_of_get_eq hget]
  exact h

theorem get_of_holds (h : entry.Holds pre ns s) : s.get (statisticsKey pre ns entry.executorID) ≠ none := by
  intro hnone
  obtain ⟨statistic, hlookup, -⟩ := h
  rw [statisticsKey] at hnone
  rw [statisticsAt, hnone] at hlookup
  cases hlookup

/-- Statistics that are there and as they were in a snapshot were never
anything else in between. -/
theorem Unwritten.before {snapshot : Store (Value F)} {executorID : String} (h : Unwritten pre ns snapshot s' executorID)
    (hsnapshot : snapshot.Follows s) (hfollows : s.Follows s')
    (hpresent : s'.get (statisticsKey pre ns executorID) ≠ none) : Unwritten pre ns snapshot s executorID := by
  obtain ⟨kv, hkv⟩ := Option.ne_none_iff_exists'.mp hpresent
  have hold : snapshot.get (statisticsKey pre ns executorID) = some kv := by
    rw [← hkv, h]
  have hbound : kv.modRevision ≤ snapshot.revision := (snapshot.bounded hold).2
  rw [Unwritten, hold]
  exact hfollows.get_of_le hkv (hbound.trans hsnapshot.revision_le)

/-- A record that is gone has no shards. -/
theorem assigned_eq_false (h : s.get (assignedStateKey pre ns entry.executorID) = none) :
    entry.assigned pre ns s = false := by
  rw [assignedStateKey] at h
  rw [Recorded.assigned, recordOf, assignedStateAt, h]
  exact decide_eq_false (AList.notMem_empty _)

/-- An operation that neither is a heartbeat nor records statistics. -/
def Other (label : Write F) : Prop := label.isHeartbeat = false ∧ label.recordsStatistics = false

/-- Other operations write no statistics key on its own. -/
theorem key_ne_of_other {op : Op (Value F)} (hop : ExecutedBy pre ns Other op) (executorID : String) :
    op.key? ≠ some (buildExecutorKey pre ns executorID .shardStatistics) := by
  obtain ⟨label, ⟨hheartbeat, hrecords⟩, hexecutes⟩ := hop
  have hversion : (touchAssignmentVersion pre ns : Op (Value F)).key? ≠
      some (buildExecutorKey pre ns executorID .shardStatistics) :=
    fun hkey => executorKey_ne_version executorID _ (Option.some.inj hkey).symm
  have hshards : ∀ shardID, some (buildDrainedShardKey pre ns shardID) ≠
      some (buildExecutorKey pre ns executorID .shardStatistics) :=
    fun shardID hkey => executorKey_ne_drainedShardKey executorID shardID _ (Option.some.inj hkey).symm
  have hhosts : ∀ host, some (buildDrainedHostKey pre ns host) ≠
      some (buildExecutorKey pre ns executorID .shardStatistics) :=
    fun host hkey => executorKey_ne_drainedHostKey executorID host _ (Option.some.inj hkey).symm
  cases label with
  | recordHeartbeat => cases hheartbeat
  | recordShardStatistics => cases hrecords
  | recordShardStatisticsUpdate => cases hrecords
  | deleteShardStats => cases hrecords
  | assignShards =>
    rcases hexecutes with rfl | ⟨e, -, record, rfl⟩ | ⟨e, -, rfl⟩
    · exact hversion
    · intro hkey
      cases (buildExecutorKey_inj (by trivial) (by trivial) (Option.some.inj hkey)).2
    · exact nofun
  | resetNamespace =>
    rcases hexecutes with rfl | rfl
    · exact hversion
    · exact nofun
  | deleteExecutors =>
    rcases hexecutes with rfl | ⟨e, -, rfl⟩
    · exact hversion
    · exact nofun
  | drainShards =>
    rcases hexecutes with rfl | ⟨shardID, -, rfl⟩
    · exact hversion
    · exact hshards shardID
  | undrainShards =>
    rcases hexecutes with rfl | ⟨shardID, -, rfl⟩
    · exact hversion
    · exact hshards shardID
  | drainHosts =>
    obtain ⟨host, _, rfl⟩ := hexecutes
    exact hhosts host
  | undrainHosts =>
    obtain ⟨host, -, rfl⟩ := hexecutes
    exact hhosts host
  | commitBatch => cases hexecutes

/-- Other operations keep the entries of assigned shards. -/
theorem holds_of_other [DecidableEq F] (h : Transacts (ExecutedBy pre ns Other) s s') (hholds : entry.Holds pre ns s)
    (hassigned : entry.assigned pre ns s' = true) : entry.Holds pre ns s' := by
  have hwrites : ∀ op : Op (Value F), ExecutedBy pre ns Other op → WriteOp pre ns op :=
    fun op ⟨label, hlabel, hexecutes⟩ => writeOp_of_executes hlabel.1 hexecutes
  rcases h.kept_or_gone hwrites entry.executorID with hkept | hgone
  · refine holds_of_get_eq hholds (hkept .shardStatistics (by trivial) fun op hop => ?_)
    exact key_ne_of_other hop entry.executorID
  · rw [assigned_eq_false (hgone .assignedState (by trivial))] at hassigned
    cases hassigned

end Entries

section Actors

variable (pre ns : String) (s : Store (Value F))

/-- What is known of a heartbeat in progress. -/
def HeartbeatRead [Encoding F] (call : Heartbeat F) : Prop :=
  call.snapshot.Follows s ∧ call.request.ns = ns ∧
    ∃ registry, readExecutorState pre registry call.request call.snapshot = .ok call.executorState

/-- What is known of a rebalance in progress. -/
structure RebalanceRead [Float64 F] [Encoding F] (call : Rebalance F) : Prop where
  follows : call.snapshot.Follows s
  read : ∃ order, getState pre ns order call.snapshot = .ok call.state
  decision : process.rebalanceShardsImpl call.choices call.cfg call.state = .ok (.assignShards call.request)
  updates : ∀ update ∈ call.updates.getD [],
    update ∈ leader.statisticsUpdates call.choices call.cfg call.state call.request

/-- An entry that was there when the rebalance read the statistics is about a
shard it saw, and its assignment leaves the shard where it was. -/
def Carries (call : Rebalance F) (entry : Recorded) : Prop :=
  Unwritten pre ns call.snapshot s entry.executorID →
    call.state.Stores entry.executorID entry.shardID ∧ (call.updates.isSome = true →
      ∃ record, call.request.newState.shardAssignments.lookup entry.executorID = some record ∧
        entry.shardID ∈ record.assignedShards)

/-- What is known of a cleanup in progress. -/
structure CleanupRead (cleanup : Cleanup F) : Prop where
  follows : cleanup.snapshot.Follows s
  ops : ∀ op ∈ cleanup.call.ops, CleanupOp pre ns cleanup.snapshot cleanup.shardIDs op
  extraOps : cleanup.call.extraOps = []

/-- What holds along undisturbed runs. -/
structure Inv [Float64 F] [Encoding F] (sys : System F) : Prop where
  ops : sys.writers.Commits (ExecutedBy pre ns Other)
  assigned : ∀ entry ∈ sys.recorded, SlashFree entry.executorID ∧ entry.assigned pre ns sys.store = true
  kept : Kept pre ns sys
  heartbeats : ∀ call ∈ sys.heartbeats, HeartbeatRead pre ns sys.store call
  rebalances : ∀ call ∈ sys.rebalances, RebalanceRead pre ns sys.store call
  carries : ∀ call ∈ sys.rebalances, ∀ entry ∈ sys.recorded, Carries pre ns sys.store call entry
  cleanups : ∀ cleanup ∈ sys.cleanups, CleanupRead pre ns sys.store cleanup
  spared : ∀ cleanup ∈ sys.cleanups, ∀ entry ∈ sys.recorded, entry.shardID ∉ cleanup.shardIDs

end Actors

section Heartbeat

variable [Float64 F] [ExpFloat64 F] [DecidableEq F] [Encoding F]

/-- A heartbeat that finds the statistics as it has read them keeps every
entry of its executor: it carries them over or makes them newer. -/
theorem holds_of_recordShardStatistics {call : Heartbeat F} (hread : HeartbeatRead pre ns s call)
    (hunwritten : Unwritten pre ns call.snapshot s call.request.executorID)
    (hclock : ∀ measured ∈ call.executorState.statistics.toList, measured.2.lastUpdateTime ≤ call.heartbeatTime)
    {cfg : handler.Config} {order : RangeOrder} {fate : Fate}
    (hstore : handler.recordShardStatistics pre cfg order call.request call.executorState.assignment
      call.executorState.statistics call.heartbeatTime fate s = s')
    (h : entry.Holds pre ns s) (hassigned : entry.assigned pre ns s = true) : entry.Holds pre ns s' := by
  obtain ⟨hfollows, rfl, registry, hread⟩ := hread
  rcases recordShardStatistics_cases hstore with rfl | ⟨record, updatedStats, hrecord, hprepare, hrevision, happlied⟩
  · exact h
  obtain ⟨hid, hstored, hstatistics⟩ := readExecutorState_assigned hread hrecord
  by_cases hexecutor : entry.executorID = call.request.executorID
  · obtain ⟨statistic, hlookup, hle⟩ := h
    have hput := happlied.get_of_put (List.mem_singleton_self _)
    -- The record is still the one the heartbeat has read.
    have hsame : assignedStateAt pre call.request.ns s call.request.executorID = some record := by
      have hget := hfollows.get_eq_of_modRevision_eq (hrevision.trans (modRevision_of_assignedStateAt hstored))
      rw [assignedStateKey] at hget
      rw [assignedStateAt, hget, ← assignedStateAt, hstored]
    have hmem : entry.shardID ∈ record.assignedShards := by
      have hmem := of_decide_eq_true hassigned
      rwa [recordOf, hexecutor, hsame] at hmem
    rw [hexecutor, statisticsAt_of_get_eq hunwritten, ← hstatistics] at hlookup
    rw [hrecord] at hprepare
    obtain ⟨updated, hupdated, hcase⟩ := loadbalancer.lookup_of_prepareShardStatistics hprepare hmem hlookup
    refine ⟨updated, ?_, ?_⟩
    · rw [hexecutor, lookup_statisticsAt_of_put hput, hupdated]
    · rcases hcase with rfl | hnow
      · exact hle
      · rw [hnow]
        exact hle.trans (hclock _ (Map.mem_toList_iff.mpr hlookup))
  · refine holds_of_get_eq h (happlied.get_of_not_touches fun htouch => hexecutor ?_)
    exact (buildExecutorKey_inj (by trivial) (by trivial) (touches_put_iff.mp htouch)).1

/-- What a heartbeat commits was not there before, for any reader. -/
theorem not_unwritten_of_recordShardStatistics {call : Heartbeat F} (hread : HeartbeatRead pre ns s call)
    {cfg : handler.Config} {order : RangeOrder} {fate : Fate}
    (hstore : handler.recordShardStatistics pre cfg order call.request call.executorState.assignment
      call.executorState.statistics call.heartbeatTime fate s = s') (hrevision : s'.revision ≠ s.revision) :
    SlashFree call.request.executorID ∧ ∀ snapshot : Store (Value F), snapshot.Follows s →
      ¬Unwritten pre ns snapshot s' call.request.executorID := by
  obtain ⟨-, rfl, registry, hread⟩ := hread
  rcases recordShardStatistics_cases hstore with rfl | ⟨record, updatedStats, hrecord, -, -, happlied⟩
  · exact absurd rfl hrevision
  refine ⟨(readExecutorState_assigned hread hrecord).1, fun snapshot hfollows hunwritten => ?_⟩
  rw [Unwritten, happlied.get_of_put (List.mem_singleton_self _)] at hunwritten
  have hbound := (snapshot.bounded hunwritten.symm).2
  have hle := hfollows.revision_le
  dsimp only at hbound
  omega

end Heartbeat

section Leader

variable [Float64 F] [DecidableEq F] [Encoding F]

/-- The update of an executor keeps every entry that the rebalance has read. -/
theorem holds_of_update {call : Rebalance F} (hread : RebalanceRead pre ns s call)
    (hcarries : Carries pre ns s call entry) {update : ExecutorShardStatistics F} (hupdate : update ∈ call.updates.getD [])
    (hunwritten : Unwritten pre ns call.snapshot s update.executorID)
    (hown : ∀ measured ∈ (statisticsAt pre ns call.snapshot update.executorID).toList,
      call.state.shardStats.lookup measured.1 = some measured.2)
    {fate : Fate} {result : Except StoreError Unit}
    (hcall : recordShardStatisticsUpdate pre ns update.executorID update.statistics fate s = (result, s'))
    (h : entry.Holds pre ns s) : entry.Holds pre ns s' := by
  by_cases hexecutor : entry.executorID = update.executorID
  · obtain ⟨statistic, hlookup, hle⟩ := h
    rw [Carries, hexecutor] at hcarries
    obtain ⟨hstores, hassignment⟩ := hcarries hunwritten
    have hsome : call.updates.isSome = true := by
      cases hupdates : call.updates with
      | none =>
        rw [hupdates] at hupdate
        cases hupdate
      | some updates => rfl
    obtain ⟨record, hrecord, hmem⟩ := hassignment hsome
    rw [hexecutor, statisticsAt_of_get_eq hunwritten] at hlookup
    obtain ⟨carried, hcarried, htime⟩ := leader.lookup_statisticsUpdates (hread.updates update hupdate) hrecord hmem
      ⟨_, hstores⟩ (hown _ (Map.mem_toList_iff.mpr hlookup))
    rcases recordShardStatisticsUpdate_cases hcall with ⟨rfl, -⟩ | ⟨hnil, -⟩ | ⟨-, happlied⟩
    · refine ⟨statistic, ?_, hle⟩
      rw [hexecutor, statisticsAt_of_get_eq hunwritten, hlookup]
    · have hentry := Map.mem_toList_iff.mpr hcarried
      rw [hnil] at hentry
      cases hentry
    · refine ⟨carried, ?_, htime ▸ hle⟩
      rw [hexecutor, lookup_statisticsAt_of_put (happlied.get_of_put (List.mem_singleton_self _)), hcarried]
  · exact holds_of_get_eq h (get_recordShardStatisticsUpdate_of_ne hcall hexecutor)

/-- After a successful assignment, a shard that an executor had and still has
is among those the assignment gave it. -/
theorem carried_of_assignShards [LawfulFloat64 F] {call : Rebalance F} (hread : RebalanceRead pre ns s call) {fate : Fate}
    (hcall : assignShards pre ns call.choices.order call.request call.guard fate s = (.ok (), s'))
    (hid : SlashFree entry.executorID) (hstores : call.state.Stores entry.executorID entry.shardID)
    (hassigned : entry.assigned pre ns s' = true) :
    ∃ record, call.request.newState.shardAssignments.lookup entry.executorID = some record ∧
      entry.shardID ∈ record.assignedShards := by
  obtain ⟨order, hstate⟩ := hread.read
  have hplan := replicas.plan_of_read hstate hread.decision
  have hcases : ¬HasOperations call.request ∨ Assigned pre ns call.request s s' := by
    rcases assignShards_cases hcall with ⟨hnone, -⟩ | ⟨-, e, he, -⟩ | ⟨-, -, h, -⟩
    · exact .inl hnone
    · cases he
    · exact .inr h
  rcases hplan.compares (.inr (.inr ⟨_, hstores⟩)) with hdeleted | hmem
  · rcases hcases with hnone | h
    · exact absurd (.inl ⟨_, hdeleted⟩) hnone
    · have hgone : s'.get (assignedStateKey pre ns entry.executorID) = none :=
        h.deleted hdeleted ((hasPrefix_buildExecutorKey_iff hid hid).mpr rfl)
      rw [assigned_eq_false hgone] at hassigned
      cases hassigned
  · obtain ⟨record, hlookup⟩ := Map.mem_iff_exists_lookup.mp hmem
    refine ⟨record, hlookup, ?_⟩
    cases hwritten : isWritten call.request entry.executorID with
    | false => exact (hplan.unwritten hlookup hwritten _).mpr hstores
    | true =>
      rcases hcases with hnone | h
      · exact absurd (.inr ⟨_, hmem, hwritten⟩) hnone
      · have hget := h.written hlookup hwritten
        have hshard := of_decide_eq_true hassigned
        rw [assignedStateKey] at hget
        rw [recordOf, assignedStateAt, hget] at hshard
        exact etcdtypes.mem_fromAssignedState.mp (Map.mem_ofList.mp hshard)

end Leader

section Cleanup

variable [DecidableEq F]

/-- A batch of a cleanup that finds the statistics as it has read them keeps
the entries of all other shards. -/
theorem holds_of_cleanupBatch {cleanup : Cleanup F} (hread : CleanupRead pre ns s cleanup)
    (hspared : entry.shardID ∉ cleanup.shardIDs)
    (hunwritten : ∀ op ∈ cleanup.call.batch.getD [], ∀ key ∈ op.key?, s.get key = cleanup.snapshot.get key)
    {fate : Fate} {progress : Progress (Value F)} (hcommit : cleanup.call.commitBatch fate s = (progress, s'))
    (h : entry.Holds pre ns s) : entry.Holds pre ns s' := by
  rcases CommitOps.commitBatch_cases hcommit with ⟨rfl, -⟩ | ⟨-, batch, -, hbatch, -, happlied, -⟩
  · exact h
  rw [hbatch, Option.getD_some] at hunwritten
  rw [hread.extraOps, List.append_nil] at happlied
  by_cases htouch : Touches batch (statisticsKey pre ns entry.executorID)
  · obtain ⟨statistic, hlookup, hle⟩ := h
    -- The one operation on these statistics was computed from what is stored.
    have hsame : ∀ op ∈ batch, op.key? = some (statisticsKey pre ns entry.executorID) →
        statisticsAt pre ns s entry.executorID = statisticsAt pre ns cleanup.snapshot entry.executorID :=
      fun op hop hkey => statisticsAt_of_get_eq (hunwritten op hop _ hkey)
    rcases htouch with hput | ⟨range, hrange, hcontains⟩
    · obtain ⟨value, hput⟩ := mem_putKeys.mp hput
      obtain ⟨e, ⟨heq, -⟩ | ⟨remaining, heq, hremaining⟩⟩ := hread.ops _ (CommitOps.mem_of_mem_batch hbatch hput)
      · cases heq
      · rw [Op.put.injEq] at heq
        obtain ⟨hkey, rfl⟩ := heq
        obtain rfl := (buildExecutorKey_inj (by trivial) (by trivial) hkey).1
        refine ⟨statistic, ?_, hle⟩
        rw [lookup_statisticsAt_of_put (happlied.get_of_put hput), hremaining _ hspared,
          ← hsame _ hput rfl, hlookup]
    · have hdelete := mem_deleteRanges.mp hrange
      obtain ⟨e, ⟨heq, hnone⟩ | ⟨remaining, heq, -⟩⟩ := hread.ops _ (CommitOps.mem_of_mem_batch hbatch hdelete)
      · rw [Op.delete.injEq] at heq
        subst heq
        have hkey := of_decide_eq_true hcontains
        obtain rfl := (buildExecutorKey_inj (by trivial) (by trivial) hkey).1
        rw [hsame _ hdelete rfl, hnone _ hspared] at hlookup
        cases hlookup
      · cases heq
  · exact holds_of_get_eq h (happlied.get_of_not_touches htouch)

end Cleanup

namespace Inv

variable [Float64 F] [Encoding F]

theorem start (s : Store (Value F)) : Inv pre ns (shardstats.start s) where
  ops := List.forall_mem_nil _
  assigned := List.forall_mem_nil _
  kept := List.forall_mem_nil _
  heartbeats := List.forall_mem_nil _
  rebalances := List.forall_mem_nil _
  carries := List.forall_mem_nil _
  cleanups := List.forall_mem_nil _
  spared := List.forall_mem_nil _

variable {sys sys' : System F} (h : Inv pre ns sys)

include h

/-- A step that keeps the entries of assigned shards keeps the invariant. -/
theorem after (hfollows : sys.store.Follows s')
    (hkept : ∀ entry ∈ sys.recorded, entry.assigned pre ns s' = true → entry.Holds pre ns s') :
    Inv pre ns (sys.after pre ns s') where
  ops := h.ops
  assigned := by
    intro entry hmem
    obtain ⟨hmem, hassigned⟩ := List.mem_filter.mp hmem
    exact ⟨(h.assigned entry hmem).1, hassigned⟩
  kept := by
    intro entry hmem
    obtain ⟨hmem, hassigned⟩ := List.mem_filter.mp hmem
    exact hkept entry hmem hassigned
  heartbeats := by
    intro call hcall
    obtain ⟨hbefore, hread⟩ := h.heartbeats call hcall
    exact ⟨hbefore.trans hfollows, hread⟩
  rebalances := by
    intro call hcall
    have hread := h.rebalances call hcall
    exact { hread with follows := hread.follows.trans hfollows }
  carries := by
    intro call hcall entry hmem hunwritten
    obtain ⟨hmem, hassigned⟩ := List.mem_filter.mp hmem
    refine h.carries call hcall entry hmem ?_
    exact hunwritten.before (h.rebalances call hcall).follows hfollows (get_of_holds (hkept entry hmem hassigned))
  cleanups := by
    intro cleanup hcleanup
    have hread := h.cleanups cleanup hcleanup
    exact { hread with follows := hread.follows.trans hfollows }
  spared := by
    intro cleanup hcleanup entry hmem
    exact h.spared cleanup hcleanup entry (List.mem_of_mem_filter hmem)

/-- Forgetting entries keeps the invariant. -/
theorem forget (p : Recorded → Bool) : Inv pre ns { sys with recorded := sys.recorded.filter p } :=
  { h with
    assigned := fun entry hmem => h.assigned entry (List.mem_of_mem_filter hmem)
    kept := fun entry hmem => h.kept entry (List.mem_of_mem_filter hmem)
    carries := fun call hcall entry hmem => h.carries call hcall entry (List.mem_of_mem_filter hmem)
    spared := fun cleanup hcleanup entry hmem => h.spared cleanup hcleanup entry (List.mem_of_mem_filter hmem) }

theorem storeHeartbeat [DecidableEq F] {i : Nat} {order : RangeOrder} {fate : Fate} [ExpFloat64 F]
    (hstep : step pre ns (.storeHeartbeat i order fate) sys = some sys') : Inv pre ns sys' := by
  dsimp only [step] at hstep
  split at hstep
  · cases hstep
  rename_i call hcall
  have hmem := List.mem_of_getElem? hcall
  obtain ⟨hbefore, hns, registry, hread⟩ := h.heartbeats call hmem
  split at hstep
  · cases hstep
  have hafter : ∀ {result s'}, handler.storeHeartbeat pre order call.request call.heartbeatTime call.executorState fate
      sys.store = (result, s') → Inv pre ns (sys.after pre ns s') := by
    intro result s' hstore
    refine h.after ?_ fun entry hentry _ => ?_
    · rcases storeHeartbeat_cases hstore with ⟨rfl, -⟩ | ⟨_, _, -, happlied⟩
      · exact .refl _
      · exact happlied.follows
    · refine holds_of_get_eq (h.kept entry hentry) ?_
      rw [statisticsKey, ← hns]
      exact get_storeHeartbeat hstore (h.assigned entry hentry).1 (.inr rfl)
  split at hstep
  · rename_i hstore
    cases hstep
    exact { hafter hstore with heartbeats := forall_mem_eraseIdx (hafter hstore).heartbeats }
  · rename_i hstore
    cases hstep
    refine { hafter hstore with heartbeats := forall_mem_set (hafter hstore).heartbeats ?_ }
    exact (hafter hstore).heartbeats call hmem

theorem recordShardStatistics [DecidableEq F] [ExpFloat64 F] {i : Nat} {cfg : handler.Config} {order : RangeOrder}
    {fate : Fate} (hundisturbed : Undisturbed pre ns sys (.recordShardStatistics i cfg order fate))
    (hstep : step pre ns (.recordShardStatistics i cfg order fate) sys = some sys') : Inv pre ns sys' := by
  dsimp only [step] at hstep
  split at hstep
  · cases hstep
  rename_i call hcall
  have hmem := List.mem_of_getElem? hcall
  have hread := h.heartbeats call hmem
  obtain ⟨hunwritten, hclock⟩ := hundisturbed call hcall
  split at hstep
  swap
  · cases hstep
  generalize hstore : handler.recordShardStatistics pre cfg order call.request call.executorState.assignment
    call.executorState.statistics call.heartbeatTime fate sys.store = s' at hstep
  have hfollows : sys.store.Follows s' := by
    rcases recordShardStatistics_cases hstore with rfl | ⟨_, _, -, -, -, happlied⟩
    · exact .refl _
    · exact happlied.follows
  have hafter : Inv pre ns (sys.after pre ns s') := by
    refine h.after hfollows fun entry hentry _ => ?_
    exact holds_of_recordShardStatistics hread hunwritten hclock hstore (h.kept entry hentry)
      (h.assigned entry hentry).2
  have herased : Inv pre ns { sys.after pre ns s' with heartbeats := sys.heartbeats.eraseIdx i } :=
    { hafter with heartbeats := forall_mem_eraseIdx hafter.heartbeats }
  split at hstep
  · cases hstep
    exact herased
  rename_i hrevision
  cases hstep
  obtain ⟨hid, hfresh⟩ := not_unwritten_of_recordShardStatistics hread hstore hrevision
  have hcommitted : ∀ entry ∈ committed pre ns sys s' call.request.executorID,
      entry.executorID = call.request.executorID ∧ entry.assigned pre ns s' = true ∧ entry.Holds pre ns s' ∧
        ∀ cleanup ∈ sys.cleanups, entry.shardID ∉ cleanup.shardIDs := by
    intro entry hentry
    obtain ⟨hentry, hfilter⟩ := List.mem_filter.mp hentry
    obtain ⟨⟨shardID, statistic⟩, hstatistic, rfl⟩ := List.mem_map.mp hentry
    rw [Bool.and_eq_true, List.all_eq_true] at hfilter
    refine ⟨rfl, hfilter.1, ⟨statistic, Map.mem_toList_iff.mp hstatistic, le_rfl⟩, fun cleanup hcleanup => ?_⟩
    exact of_decide_eq_true (hfilter.2 cleanup hcleanup)
  refine { herased with assigned := ?_, kept := ?_, carries := ?_, spared := ?_ }
  · refine List.forall_mem_append.mpr ⟨herased.assigned, fun entry hentry => ?_⟩
    obtain ⟨hexecutor, hassigned, -⟩ := hcommitted entry hentry
    exact ⟨hexecutor ▸ hid, hassigned⟩
  · exact List.forall_mem_append.mpr ⟨herased.kept, fun entry hentry => (hcommitted entry hentry).2.2.1⟩
  · intro call' hcall'
    refine List.forall_mem_append.mpr ⟨herased.carries call' hcall', fun entry hentry hunwritten' => ?_⟩
    rw [(hcommitted entry hentry).1] at hunwritten'
    exact absurd hunwritten' (hfresh call'.snapshot (h.rebalances call' hcall').follows)
  · intro cleanup hcleanup
    exact List.forall_mem_append.mpr ⟨herased.spared cleanup hcleanup,
      fun entry hentry => (hcommitted entry hentry).2.2.2 cleanup hcleanup⟩

theorem rebalance {state : NamespaceState F} {readOrder : RangeOrder} {choices : process.Choices}
    {cfg : process.Config F} {request : AssignShardsRequest F} (guard : Guarded (Value F))
    (hstate : getState pre ns readOrder sys.store = .ok state)
    (hdecision : process.rebalanceShardsImpl choices cfg state = .ok (.assignShards request)) :
    Inv pre ns { sys with
      rebalances := sys.rebalances ++ [⟨sys.store, state, choices, cfg, request, guard, none⟩] } := by
  refine { h with rebalances := ?_, carries := ?_ }
  · refine forall_mem_concat h.rebalances ?_
    exact ⟨.refl _, ⟨readOrder, hstate⟩, hdecision, List.forall_mem_nil _⟩
  · refine forall_mem_concat h.carries fun entry hentry _ => ⟨?_, nofun⟩
    obtain ⟨hid, hassigned⟩ := h.assigned entry hentry
    rw [NamespaceState.Stores, NamespaceState.assigned, lookup_shardAssignments hstate hid]
    exact of_decide_eq_true hassigned

theorem assignShards [LawfulFloat64 F] [DecidableEq F] [ExpFloat64 F] {i : Nat} {fate : Fate}
    (hstep : step pre ns (.assignShards i fate) sys = some sys') : Inv pre ns sys' := by
  dsimp only [step] at hstep
  split at hstep
  · cases hstep
  rename_i call hcall
  have hmem := List.mem_of_getElem? hcall
  split at hstep
  · cases hstep
  have hafter : ∀ {result s'}, executorstore.assignShards pre ns call.choices.order call.request call.guard fate
      sys.store = (result, s') → Inv pre ns (sys.after pre ns s') := by
    intro result s' hassign
    have htransacts : Transacts (ExecutedBy pre ns Other) sys.store s' := by
      have hexecutes := assignShards_executes pre ns call.choices.order call.request call.guard fate sys.store
      rw [hassign] at hexecutes
      exact hexecutes.mono fun op hop => ⟨_, ⟨rfl, rfl⟩, hop⟩
    exact h.after htransacts.follows fun entry hentry => holds_of_other htransacts (h.kept entry hentry)
  split at hstep
  · rename_i hassign
    cases hstep
    exact { hafter hassign with
      rebalances := forall_mem_eraseIdx (hafter hassign).rebalances
      carries := forall_mem_eraseIdx (hafter hassign).carries }
  · rename_i s' hassign
    cases hstep
    have hread := (hafter hassign).rebalances call hmem
    refine { hafter hassign with
      rebalances := forall_mem_set (hafter hassign).rebalances { hread with updates := fun _ hupdate => hupdate }
      carries := forall_mem_set (hafter hassign).carries fun entry hentry hunwritten => ?_ }
    obtain ⟨hstores, -⟩ := (hafter hassign).carries call hmem entry hentry hunwritten
    obtain ⟨hid, hassigned⟩ := (hafter hassign).assigned entry hentry
    have hcarried := carried_of_assignShards (h.rebalances call hmem) hassign hid hstores hassigned
    exact ⟨hstores, fun _ => hcarried⟩

theorem recordShardStatisticsUpdate [DecidableEq F] [ExpFloat64 F] {i : Nat} {fate : Fate}
    (hundisturbed : Undisturbed pre ns sys (.recordShardStatisticsUpdate i fate))
    (hstep : step pre ns (.recordShardStatisticsUpdate i fate) sys = some sys') : Inv pre ns sys' := by
  dsimp only [step] at hstep
  split at hstep
  · cases hstep
  rename_i call hcall
  have hmem := List.mem_of_getElem? hcall
  split at hstep
  swap
  · cases hstep
  rename_i update updates hupdates
  cases hstep
  have hnext : update ∈ call.updates.getD [] := by
    rw [hupdates]
    exact List.mem_cons_self
  obtain ⟨hunwritten, hown⟩ := hundisturbed call hcall update (by rw [hupdates]; rfl)
  rcases hsend : executorstore.recordShardStatisticsUpdate pre ns update.executorID update.statistics fate sys.store
    with ⟨result, s'⟩
  have hfollows : sys.store.Follows s' := by
    rcases recordShardStatisticsUpdate_cases hsend with ⟨rfl, -⟩ | ⟨-, happlied⟩ | ⟨-, happlied⟩
    · exact .refl _
    · exact happlied.follows
    · exact happlied.follows
  have hafter : Inv pre ns (sys.after pre ns s') := by
    refine h.after hfollows fun entry hentry _ => ?_
    exact holds_of_update (h.rebalances call hmem) (h.carries call hmem entry hentry) hnext hunwritten hown hsend
      (h.kept entry hentry)
  have hread := hafter.rebalances call hmem
  refine { hafter with
    rebalances := forall_mem_set hafter.rebalances { hread with updates := fun later hlater => hread.updates later ?_ }
    carries := forall_mem_set hafter.carries fun entry hentry hunwritten' => ?_ }
  · rw [hupdates]
    exact List.mem_cons_of_mem _ hlater
  · obtain ⟨hstores, hassignment⟩ := hafter.carries call hmem entry hentry hunwritten'
    refine ⟨hstores, fun _ => hassignment ?_⟩
    rw [hupdates]
    rfl

theorem cleanupBatch [DecidableEq F] [ExpFloat64 F] {i : Nat} {fate : Fate}
    (hundisturbed : Undisturbed pre ns sys (.cleanupBatch i fate))
    (hstep : step pre ns (.cleanupBatch i fate) sys = some sys') : Inv pre ns sys' := by
  dsimp only [step] at hstep
  split at hstep
  · cases hstep
  rename_i cleanup hcleanup
  have hmem := List.mem_of_getElem? hcleanup
  have hread := h.cleanups cleanup hmem
  have hafter : ∀ {progress s'}, cleanup.call.commitBatch fate sys.store = (progress, s') →
      Inv pre ns (sys.after pre ns s') := by
    intro progress s' hcommit
    refine h.after ?_ fun entry hentry _ => ?_
    · rcases CommitOps.commitBatch_cases hcommit with ⟨rfl, -⟩ | ⟨-, batch, -, -, -, happlied, -⟩
      · exact .refl _
      · exact happlied.follows
    · exact holds_of_cleanupBatch hread (h.spared cleanup hmem entry hentry) (hundisturbed cleanup hcleanup) hcommit
        (h.kept entry hentry)
  split at hstep
  · rename_i call s' hcommit
    cases hstep
    have hsame := CommitOps.sameCall_of_running hcommit
    have hread' := (hafter hcommit).cleanups cleanup hmem
    exact { hafter hcommit with
      cleanups := forall_mem_set (hafter hcommit).cleanups
        ⟨hread'.follows, hsame.ops ▸ hread'.ops, hsame.extraOps.trans hread'.extraOps⟩
      spared := forall_mem_set (hafter hcommit).spared ((hafter hcommit).spared cleanup hmem) }
  · rename_i result s' hcommit
    cases hstep
    exact { hafter hcommit with
      cleanups := forall_mem_eraseIdx (hafter hcommit).cleanups
      spared := forall_mem_eraseIdx (hafter hcommit).spared }

/-- Every step of an undisturbed run keeps the invariant. -/
theorem step [LawfulFloat64 F] [DecidableEq F] [ExpFloat64 F] {label : Label F} (hundisturbed : Undisturbed pre ns sys label)
    (hstep : shardstats.step pre ns label sys = some sys') : Inv pre ns sys' := by
  cases label with
  | heartbeat registry request heartbeatTime =>
    dsimp only [shardstats.step] at hstep
    split at hstep
    · rename_i hns
      split at hstep
      · cases hstep
        exact h
      · rename_i executorState hread
        cases hstep
        refine { h with heartbeats := forall_mem_concat h.heartbeats ?_ }
        exact ⟨.refl _, hns, registry, hread⟩
    · cases hstep
  | storeHeartbeat i order fate => exact h.storeHeartbeat hstep
  | recordShardStatistics i cfg order fate => exact h.recordShardStatistics hundisturbed hstep
  | rebalance readOrder choices cfg guard =>
    dsimp only [shardstats.step] at hstep
    split at hstep
    · cases hstep
      exact h
    · rename_i state hstate
      split at hstep
      · rename_i request hdecision
        cases hstep
        exact h.rebalance guard hstate hdecision
      · cases hstep
        exact h
  | assignShards i fate => exact h.assignShards hstep
  | recordShardStatisticsUpdate i fate => exact h.recordShardStatisticsUpdate hundisturbed hstep
  | deleteShardStats order maxEtcdTxnOps shardIDs guard =>
    have hforget := h.forget fun entry => decide (entry.shardID ∉ shardIDs)
    dsimp only [shardstats.step] at hstep
    split at hstep
    · rename_i call hcall
      cases hstep
      obtain ⟨hops, hextra⟩ := cleanupOp_of_deleteShardStats hcall
      refine { hforget with cleanups := ?_, spared := ?_ }
      · exact forall_mem_concat h.cleanups ⟨.refl _, hops, hextra⟩
      · refine forall_mem_concat hforget.spared fun entry hentry => ?_
        exact of_decide_eq_true (List.mem_filter.mp hentry).2
    · cases hstep
      exact hforget
  | cleanupBatch i fate => exact h.cleanupBatch hundisturbed hstep
  | abandonCleanup i =>
    cases hstep
    exact { h with cleanups := forall_mem_eraseIdx h.cleanups, spared := forall_mem_eraseIdx h.spared }
  | write label =>
    dsimp only [shardstats.step] at hstep
    split at hstep
    · cases hstep
    rename_i hlabel
    rw [Bool.or_eq_true, not_or, Bool.not_eq_true, Bool.not_eq_true] at hlabel
    obtain ⟨w, hw, rfl⟩ := Option.map_eq_some_iff.mp hstep
    obtain ⟨htransacts, hops⟩ := write_executedBy h.ops hlabel hw
    have hafter := h.after htransacts.follows fun entry hentry => holds_of_other htransacts (h.kept entry hentry)
    exact { hafter with ops := hops }

end Inv

/-- Along every undisturbed run, from any store, no statistics entry that a
heartbeat has committed is lost or replaced by an older one. -/
theorem kept_of_run [Float64 F] [LawfulFloat64 F] [ExpFloat64 F] [DecidableEq F] [Encoding F] (pre ns : String)
    (s : Store (Value F)) (sys : System F)
    (hrun : transition.Run (step pre ns) (Undisturbed pre ns) (start s) sys) : Kept pre ns sys :=
  (hrun.invariant (Inv pre ns) (fun _ _ _ h hundisturbed hstep => h.step hundisturbed hstep) (.start s)).kept

section Examples

/-- Executor `a` has two shards, both measured at time 5. -/
def bothMeasured : Store (Value ExactFloat) :=
  (Txn.flat [] [
    .put (buildExecutorKey "shards" "ns" "a" .heartbeat) (.time 5),
    .put (buildExecutorKey "shards" "ns" "a" .status) (.status .active),
    .put (assignedStateKey "shards" "ns" "a") (.assignedState ⟨[("0", some ⟨.ready⟩), ("1", some ⟨.ready⟩)], [], 0⟩),
    .put (statisticsKey "shards" "ns" "a")
      (.statistics [("0", ⟨Float64.zero, 5, 0⟩), ("1", ⟨Float64.zero, 5, 0⟩)])] []).next .empty

/-- A heartbeat of `a` that reports both shards. -/
def reportsBoth (heartbeatTime : Time) : Label ExactFloat :=
  .heartbeat exampleRegistry {
    ns := "ns"
    executorID := "a"
    status := .active
    shardStatusReports := Map.ofList [("0", some ⟨.ready, Float64.zero⟩), ("1", some ⟨.ready, Float64.zero⟩)]
    metadata := ∅
    hostName := none } heartbeatTime

/-- The last two steps of a heartbeat. -/
def finishes : List (Label ExactFloat) :=
  [.storeHeartbeat 0 .stored .delivered, .recordShardStatistics 0 exampleConfig .stored .delivered]

/-- The cleanup of shard 1 reads after the heartbeat is done. -/
def cleanedUpLater : List (Label ExactFloat) :=
  reportsBoth 20 :: finishes ++ [.deleteShardStats .stored 128 ["1"] nopGuard, .cleanupBatch 0 .delivered]

theorem cleanedUpLater_kept : ∃ sys : System ExactFloat,
    transition.Run (step "shards" "ns") (Undisturbed "shards" "ns") (start bothMeasured) sys ∧
    ⟨"a", "0", 20⟩ ∈ sys.recorded ∧ Kept "shards" "ns" sys := by
  have hrun : (cleanedUpLater.foldlM (fun sys label =>
      if decide (Undisturbed "shards" "ns" sys label) then step "shards" "ns" label sys else none)
        (start bothMeasured)).map (fun sys => decide (⟨"a", "0", 20⟩ ∈ sys.recorded)) = some true := by
    decide +kernel
  obtain ⟨sys, hfold, hrecorded⟩ := Option.map_eq_some_iff.mp hrun
  have hreached : transition.Run (step "shards" "ns") (Undisturbed "shards" "ns") (start bothMeasured) sys :=
    transition.run_of_foldlM _ (fun _ _ => of_decide_eq_true) hfold
  exact ⟨sys, hreached, of_decide_eq_true hrecorded, kept_of_run "shards" "ns" bothMeasured sys hreached⟩

/-- The cleanup of shard 1 reads before the heartbeat commits, and writes after. -/
def cleanedUpAround : List (Label ExactFloat) :=
  [reportsBoth 20, .deleteShardStats .stored 128 ["1"] nopGuard] ++ finishes ++ [.cleanupBatch 0 .delivered]

/-- The measurement of shard 0 at time 20 is rolled back to the one at time 5,
although shard 0 was never to be cleaned up. -/
theorem cleanedUpAround_rolled_back : ∃ sys : System ExactFloat,
    transition.Reaches (step "shards" "ns") (start bothMeasured) sys ∧
    ⟨"a", "0", 20⟩ ∈ sys.recorded ∧
    ((statisticsAt "shards" "ns" sys.store "a").lookup "0").map (·.lastUpdateTime) = some 5 ∧
    ¬Kept "shards" "ns" sys := by
  have hrun : (cleanedUpAround.foldlM (fun sys label => step "shards" "ns" label sys) (start bothMeasured)).map
      (fun sys => decide (⟨"a", "0", 20⟩ ∈ sys.recorded ∧
        ((statisticsAt "shards" "ns" sys.store "a").lookup "0").map (·.lastUpdateTime) = some 5)) = some true := by
    decide +kernel
  obtain ⟨sys, hfold, hfacts⟩ := Option.map_eq_some_iff.mp hrun
  obtain ⟨hrecorded, htime⟩ := of_decide_eq_true hfacts
  refine ⟨sys, transition.reaches_of_foldlM hfold, hrecorded, htime, fun hkept => ?_⟩
  obtain ⟨statistic, hlookup, hle⟩ := hkept _ hrecorded
  rw [hlookup, Option.map_some, Option.some.injEq] at htime
  rw [htime] at hle
  exact absurd hle (by decide)

end Examples

end shardstats
