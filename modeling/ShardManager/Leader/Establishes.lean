import ShardManager.Leader.Effect

open golang etcd etcdkeys store plan executorstore common

namespace leader

open etcdtypes (Value Encoding)

variable {F : Type} {pre ns : String} {s s' : Store (Value F)}

section Changes

variable [Encoding F]

/-- The pass changes the value of an assignment record. -/
def Pass.ChangesRecord (pre ns : String) (pass : Pass F) : Prop :=
  ∃ executorID, (pass.after.get (assignedStateKey pre ns executorID)).map (·.value) ≠
    (pass.before.get (assignedStateKey pre ns executorID)).map (·.value)

/-- The pass removes an executor: `GetState` returns it before and not after. -/
def Pass.RemovesExecutor (pre ns : String) (pass : Pass F) : Prop :=
  ∃ executorID, (storedExecutor pre ns pass.before executorID).isSome = true ∧
    storedExecutor pre ns pass.after executorID = none

def Pass.Changes (pre ns : String) (pass : Pass F) : Prop :=
  pass.ChangesRecord pre ns ∨ pass.RemovesExecutor pre ns

theorem Pass.not_changes_of_eq (pass : Pass F) (h : pass.after = pass.before) : ¬pass.Changes pre ns := by
  rintro (⟨executorID, hne⟩ | ⟨executorID, hsome, hnone⟩)
  · exact hne (by rw [h])
  · rw [h] at hnone
    rw [hnone] at hsome
    cases hsome

end Changes

section Cases

variable [Float64 F] [DecidableEq F] [Encoding F]

/-- Everything a pass that returns no error can have done. -/
theorem rebalanceShardsImpl_cases {cfg : process.Config F} {env : Environment F} {s : Store (Value F)} {pass : Pass F}
    (h : rebalanceShardsImpl pre ns cfg env s = some pass) :
    ∃ state, getState pre ns env.readOrder s = .ok state ∧ pass.before = s ∧
      pass.moves = plannedMoves env.choices cfg state ∧
      (pass.after = s ∧ pass.transactions = 0 ∧ pass.cleanupErr = none ∨
      (∃ executorIDs, process.rebalanceShardsImpl env.choices cfg state = .ok (.deleteExecutors executorIDs) ∧
        (deleteExecutors pre ns env.maxEtcdTxnOps executorIDs env.guard).finish env.deleteFates s =
          some ⟨pass.cleanupErr, pass.transactions, pass.after⟩) ∨
      ∃ request s', process.rebalanceShardsImpl env.choices cfg state = .ok (.assignShards request) ∧
        assignShards pre ns env.choices.order request env.guard env.assignFate s = (.ok (), s') ∧
        pass.after = recordShardStatisticsBatch pre ns (statisticsUpdates env.choices cfg state request)
          env.statisticsFates s' ∧
        pass.transactions = (if assignmentOps pre ns env.choices.order request = [] then 0 else 1) +
          (statisticsUpdates env.choices cfg state request).length ∧ pass.cleanupErr = none) := by
  unfold rebalanceShardsImpl at h
  cases hread : getState pre ns env.readOrder s with
  | error message =>
    rw [hread] at h
    cases h
  | ok state =>
    rw [hread] at h
    refine ⟨state, rfl, ?_⟩
    dsimp only at h
    cases hdecision : process.rebalanceShardsImpl env.choices cfg state with
    | error failure =>
      rw [hdecision] at h
      cases h
    | ok decision =>
      rw [hdecision] at h
      cases decision with
      | nothing =>
        cases h
        exact ⟨rfl, rfl, .inl ⟨rfl, rfl, rfl⟩⟩
      | deleteExecutors executorIDs =>
        dsimp only at h
        split at h
        · cases h
        · cases h
        · rename_i hfinish
          cases h
          exact ⟨rfl, rfl, .inr (.inl ⟨executorIDs, rfl, hfinish⟩)⟩
      | assignShards request =>
        dsimp only at h
        split at h
        · cases h
        · rename_i s' hassign
          cases h
          exact ⟨rfl, rfl, .inr (.inr ⟨request, s', rfl, hassign, rfl, rfl, rfl⟩)⟩

end Cases

section Quiet

variable [Float64 F] {choices : process.Choices} {cfg : process.Config F} {state : NamespaceState F}
  {stale : Map String Int} {p : process.Planned} {shards available : List String}

/-- An assignment that has nothing to write leaves every shard with its owner,
so that no statistics are written either. -/
theorem statisticsUpdates_eq_nil (hallots : process.Allots choices cfg state stale p shards available)
    (hnone : ¬HasOperations (process.assignShardsRequest choices state stale p)) :
    statisticsUpdates choices cfg state (process.assignShardsRequest choices state stale p) = [] := by
  have hnodup := hallots.distributes.perm.nodup_iff.mpr hallots.nodup
  have hunwritten : ∀ {executorID},
      executorID ∈ (process.assignShardsRequest choices state stale p).newState.shardAssignments →
      isWritten (process.assignShardsRequest choices state stale p) executorID = false :=
    fun {executorID} hmem => Bool.eq_false_iff.mpr fun hwritten => hnone (.inr ⟨executorID, hmem, hwritten⟩)
  have hunassign : ∀ executorID, executorID ∉ p.executorsToUnassign := by
    intro executorID hmem
    obtain ⟨revision, hrevision⟩ := Map.mem_iff_exists_lookup.mp hmem
    have hwritten := hunwritten (hallots.mem_request.mpr (.inr hmem))
    rw [process.isWritten_of_unassign hrevision] at hwritten
    cases hwritten
  -- Whoever stores a shard is assignable and unchanged.
  have hstored : ∀ {executorID shardID}, state.Stores executorID shardID →
      shardID ∈ ListMap.index p.currentAssignments executorID := by
    intro executorID shardID hstores
    have hassignable : state.Assignable stale executorID := by
      by_contra hnot
      refine hunassign executorID ((hallots.unassign executorID).mpr ⟨⟨shardID, hstores⟩, hnot, fun hstale => ?_⟩)
      exact hnone (.inl ⟨executorID, hstale⟩)
    obtain ⟨shardIDs, hlookup⟩ := Map.mem_iff_exists_lookup.mp ((hallots.distributes.keys executorID).mpr hassignable)
    have hunchanged := process.isUnchanged_of_not_written hlookup
      (hunwritten (hallots.mem_request.mpr (.inl hassignable)))
    rw [ListMap.index_of_lookup hlookup]
    exact (process.stores_iff_of_isUnchanged hunchanged shardID).mp hstores
  rw [List.eq_nil_iff_forall_not_mem]
  intro update hmem
  obtain ⟨newOwnerID, entry, shardID, hentry, hshard, hother, -⟩ :=
    greedy.mem_findAffectedExecutors.mp (mem_statisticsUpdates hmem).1
  have hindex := (hallots.mem_entry hentry).mp hshard
  have hstores : state.Stores newOwnerID shardID := by
    have hlookup := ListMap.lookup_of_mem_index hindex
    have hunchanged := process.isUnchanged_of_not_written hlookup
      (hunwritten (Map.mem_iff_exists_lookup.mpr ⟨_, hentry⟩))
    exact (process.stores_iff_of_isUnchanged hunchanged shardID).mpr hindex
  obtain ⟨previousOwnerID, hprevious⟩ := Map.mem_iff_exists_lookup.mp
    (NamespaceState.mem_shardOwners.mpr ⟨newOwnerID, hstores⟩)
  refine hother (hprevious.trans (congrArg some ?_))
  exact ListMap.index_unique hnodup (hstored (NamespaceState.stores_of_shardOwners hprevious)) hindex

end Quiet

section Readable

theorem decodes_of_assigned {request : AssignShardsRequest F}
    (hids : ∀ executorID ∈ request.newState.shardAssignments, SlashFree executorID)
    (hassigned : Assigned pre ns request s s') (hs : ∀ entry ∈ executorEntries pre ns s, Decodes pre ns entry) :
    ∀ entry ∈ executorEntries pre ns s', Decodes pre ns entry := by
  rintro ⟨key, kv⟩ hentry
  obtain ⟨hkey, hget⟩ := mem_executorEntries_iff.mp hentry
  by_cases hdeleted : ∃ executorID ∈ request.executorsToDelete,
      hasPrefix key (buildExecutorIDPrefix pre ns executorID) = true
  · obtain ⟨executorID, hmem, hkeyPrefix⟩ := hdeleted
    cases hget.symm.trans (hassigned.deleted hmem hkeyPrefix)
  by_cases hwritten : ∃ executorID ∈ request.newState.shardAssignments,
      isWritten request executorID = true ∧ key = assignedStateKey pre ns executorID
  · obtain ⟨executorID, hmem, hwritten, rfl⟩ := hwritten
    obtain ⟨record, hlookup⟩ := Map.mem_iff_exists_lookup.mp hmem
    cases hget.symm.trans (hassigned.written hlookup hwritten)
    exact ⟨executorID, .assignedState, parseExecutorKey_buildExecutorKey (hids executorID hmem) (by trivial), rfl⟩
  · have hversion := assignmentVersionKey_ne_of_dir "executors/" (by decide) hkey
    refine hs _ (mem_executorEntries_iff.mpr ⟨hkey, ?_⟩)
    rw [← hassigned.unchanged ?_ ?_ hversion, hget]
    · exact fun executorID hmem => eq_false_of_ne_true fun hkeyPrefix => hdeleted ⟨executorID, hmem, hkeyPrefix⟩
    · exact fun executorID hmem hwrites heq => hwritten ⟨executorID, hmem, hwrites, heq⟩

theorem decodes_recordShardStatisticsBatch [Float64 F] [DecidableEq F] {updates : List (ExecutorShardStatistics F)}
    (hids : ∀ update ∈ updates, update.statistics.toList ≠ [] → SlashFree update.executorID) (fates : String → Fate)
    (hs : ∀ entry ∈ executorEntries pre ns s, Decodes pre ns entry) :
    ∀ entry ∈ executorEntries pre ns (recordShardStatisticsBatch pre ns updates fates s), Decodes pre ns entry := by
  induction updates generalizing s with
  | nil => exact hs
  | cons update updates ih =>
    obtain ⟨hid, hids⟩ := List.forall_mem_cons.mp hids
    rcases hcall : recordShardStatisticsUpdate pre ns update.executorID update.statistics
      (fates update.executorID) s with ⟨result, next⟩
    rw [recordShardStatisticsBatch, List.foldl_cons, hcall]
    refine ih hids ?_
    rcases recordShardStatisticsUpdate_cases hcall with ⟨rfl, -⟩ | ⟨-, happlied⟩ | ⟨hne, happlied⟩
    · exact hs
    · refine decodes_of_applied happlied (fun key value hput _ => ?_) hs
      cases List.mem_singleton.mp hput
    · refine decodes_of_applied happlied (fun key value hput _ => ?_) hs
      cases List.mem_singleton.mp hput
      exact ⟨_, .shardStatistics, parseExecutorKey_buildExecutorKey (hid hne) (by trivial), rfl⟩

/-- Deleting executors puts nothing but the assignment version. -/
theorem decodes_of_deleteExecutors [DecidableEq F] {maxEtcdTxnOps : Int} {executorIDs : List String}
    {guard : Guarded (Value F)} {fates : List Fate} {ended : CommitOps.Ended (Value F)}
    (h : (deleteExecutors pre ns maxEtcdTxnOps executorIDs guard).finish fates s = some ended)
    (hs : ∀ entry ∈ executorEntries pre ns s, Decodes pre ns entry) :
    ∀ entry ∈ executorEntries pre ns ended.store, Decodes pre ns entry := by
  rw [deleteExecutors_eq] at h
  refine finish_invariant h (fun x => ∀ entry ∈ executorEntries pre ns x, Decodes pre ns entry) ?_ hs
  intro batch a b hbatch happlied ha
  refine decodes_of_applied happlied (fun key value hput hkey => ?_) ha
  rcases List.mem_append.mp hput with hop | hop
  · obtain ⟨_, -, heq⟩ := List.mem_map.mp (hbatch _ hop)
    cases heq
  · rw [List.mem_singleton, touchAssignmentVersion, Op.put.injEq] at hop
    exact absurd hop.1 (assignmentVersionKey_ne_of_dir "executors/" (by decide) hkey)

end Readable

section Step

variable [Encoding F] {pass : Pass F} {s₁ : Store (Value F)} {state : NamespaceState F} {order : RangeOrder}

theorem removesExecutor_of_sweeps {removed : Map String Int} (hread : getState pre ns order pass.before = .ok state)
    (hsweeps : Sweeps pre ns removed state pass.before pass.after) {executorID : String} (hremoved : executorID ∈ removed)
    (hmem : executorID ∈ state.executors) : pass.RemovesExecutor pre ns := by
  obtain ⟨heartbeat, hlookup⟩ := Map.mem_iff_exists_lookup.mp hmem
  rw [(getState_entry hread executorID).1] at hlookup
  obtain ⟨executorData, hstored, -⟩ := Option.map_eq_some_iff.mp hlookup
  refine ⟨executorID, ?_, storedExecutor_eq_none fun hkey => hsweeps.gone hremoved hkey⟩
  rw [hstored, Option.isSome_some]

variable [Float64 F] {choices : process.Choices} {cfg : process.Config F} {stale : Map String Int}
  {p : process.Planned} {shards available : List String}

/-- Whoever is written gets another record than it had. -/
theorem changesRecord_of_written (hread : getState pre ns order pass.before = .ok state)
    (hallots : process.Allots choices cfg state stale p shards available)
    (hassigned : Assigned pre ns (process.assignShardsRequest choices state stale p) pass.before s₁)
    (hids : ∀ {executorID}, executorID ∈ replicas.compared (process.assignShardsRequest choices state stale p) →
      SlashFree executorID)
    (hrecords : ∀ executorID,
      pass.after.get (assignedStateKey pre ns executorID) = s₁.get (assignedStateKey pre ns executorID))
    {executorID : String}
    (hmem : executorID ∈ (process.assignShardsRequest choices state stale p).newState.shardAssignments)
    (hwritten : isWritten (process.assignShardsRequest choices state stale p) executorID = true) :
    pass.ChangesRecord pre ns := by
  refine ⟨executorID, fun hsame => ?_⟩
  obtain ⟨entry, hentry⟩ := Map.mem_iff_exists_lookup.mp hmem
  have hid := hids (.inr hmem)
  rw [hrecords, hassigned.written hentry hwritten] at hsame
  rcases process.isWritten_iff.mp hwritten with ⟨shardIDs, hlookup, hchanged⟩ | hunassign
  · have hentry' := hallots.lookup_request.mpr (.inl ⟨shardIDs, hlookup, rfl⟩)
    rw [hentry, Option.some.injEq] at hentry'
    rw [isUnchanged_of_value hread hid hsame.symm (by rw [hentry']; rfl)] at hchanged
    cases hchanged
  · obtain ⟨⟨shardID, hstores⟩, hnot, -⟩ := (hallots.unassign executorID).mp hunassign
    obtain ⟨record, hlookup, hshard⟩ := NamespaceState.stores_iff.mp hstores
    obtain ⟨-, kv, stored, hget, hvalue, rfl⟩ := ((getState_describes hread).1.assignments _ _).mp hlookup
    rw [hget, Option.map_some, Option.map_some, Option.some.injEq, hvalue, Value.assignedState.injEq] at hsame
    subst hsame
    change shardID ∈ Map.ofList (etcdtypes.jsonObject entry.assignedShards) at hshard
    rw [Map.mem_iff_exists_lookup, etcdtypes.lookup_ofList_jsonObject, ← Map.mem_iff_exists_lookup,
      hallots.mem_entry hentry] at hshard
    exact hnot ((hallots.distributes.keys executorID).mp
      (Map.mem_iff_exists_lookup.mpr ⟨_, ListMap.lookup_of_mem_index hshard⟩))

end Step

section Writes

variable [Float64 F]

abbrev staleExecutors (cfg : process.Config F) (now : Time) (state : NamespaceState F) : Map String Int :=
  process.identifyStaleExecutors cfg.heartbeatTTL now state

abbrev plannedRequest (cfg : process.Config F) (choices : process.Choices) (state : NamespaceState F)
    (p : process.Planned) : AssignShardsRequest F :=
  process.assignShardsRequest choices state (staleExecutors cfg choices.now state) p

variable [LawfulFloat64 F] [DecidableEq F] [Encoding F] {cfg : process.Config F} {env : Environment F}
  {pass : Pass F} {state : NamespaceState F}

/-- What a pass that cleans up has done to the store it read: nobody is
assignable, and of the executors some stale ones are removed, all of them if
the cleanup does not fail. -/
structure CleansUp (pre ns : String) (cfg : process.Config F) (env : Environment F) (state : NamespaceState F)
    (pass : Pass F) : Prop where
  idle : ∀ executorID, ¬state.Assignable (staleExecutors cfg env.choices.now state) executorID
  stale : ∃ executorID, executorID ∈ staleExecutors cfg env.choices.now state
  decodes : ∀ entry ∈ executorEntries pre ns pass.after, Decodes pre ns entry
  removes : ∃ removed : Map String Int, (∀ executorID ∈ removed, executorID ∈ staleExecutors cfg env.choices.now state) ∧
    (pass.cleanupErr = none → removed = staleExecutors cfg env.choices.now state) ∧
    Sweeps pre ns removed state pass.before pass.after ∧
    ∀ {executorID}, SlashFree executorID → executorID ∉ removed → Intact pre ns executorID pass.before pass.after

omit [Float64 F] [LawfulFloat64 F] [DecidableEq F] [Encoding F] in
theorem mem_executors_of_stale {now : Time} {executorID : String} (h : executorID ∈ staleExecutors cfg now state) :
    executorID ∈ state.executors := by
  obtain ⟨heartbeat, hlookup, -⟩ := process.mem_identifyStaleExecutors.mp h
  exact Map.mem_iff_exists_lookup.mpr ⟨heartbeat, hlookup⟩

omit [LawfulFloat64 F] in
theorem cleansUp_of_delete {executorIDs : List String} (hread : getState pre ns env.readOrder pass.before = .ok state)
    (hdecision : process.rebalanceShardsImpl env.choices cfg state = .ok (.deleteExecutors executorIDs))
    (hfinish : (deleteExecutors pre ns env.maxEtcdTxnOps executorIDs env.guard).finish env.deleteFates pass.before =
      some ⟨pass.cleanupErr, pass.transactions, pass.after⟩) : CleansUp pre ns cfg env state pass := by
  rcases process.rebalanceShardsImpl_ok rfl hdecision with
    ⟨hidle, hnothing | ⟨hstale, hdelete⟩⟩ | ⟨-, p, -, ⟨-, hother⟩ | ⟨-, hother⟩⟩
  · cases hnothing
  · cases hdelete
    exact ⟨hidle, hstale, decodes_of_deleteExecutors hfinish (getState_isOk_iff.mp ⟨state, hread⟩),
      sweeps_deleteExecutors hfinish hread (fun _ => mem_executors_of_stale) fun executorID => RangeOrder.mem_rangeKeys⟩
  · cases hother
  · cases hother

omit [Float64 F] [LawfulFloat64 F] [DecidableEq F] in
/-- A cleanup that does not fail removes somebody. -/
theorem CleansUp.changes (h : CleansUp pre ns cfg env state pass) (herr : pass.cleanupErr = none)
    (hread : getState pre ns env.readOrder pass.before = .ok state) : pass.Changes pre ns := by
  obtain ⟨removed, -, hall, hsweeps, -⟩ := h.removes
  obtain ⟨executorID, hstale⟩ := h.stale
  refine .inr (removesExecutor_of_sweeps hread hsweeps (hall herr ▸ hstale) (mem_executors_of_stale hstale))

/-- What a pass that assigns shards has done: the shards are distributed as
planned and the stale executors are gone. -/
structure Assigns (pre ns : String) (cfg : process.Config F) (env : Environment F) (state : NamespaceState F)
    (pass : Pass F) (p : process.Planned) (shards available : List String) : Prop where
  active : ∃ executorID, state.Assignable (staleExecutors cfg env.choices.now state) executorID
  moves : p.loadBalanceMoves = pass.moves
  succeeds : pass.cleanupErr = none
  changes : pass.Changes pre ns
  decodes : ∀ entry ∈ executorEntries pre ns pass.after, Decodes pre ns entry
  sweeps : Sweeps pre ns (staleExecutors cfg env.choices.now state) state pass.before pass.after
  allots : process.Allots env.choices cfg state (staleExecutors cfg env.choices.now state) p shards available
  hasOperations : HasOperations (plannedRequest cfg env.choices state p)
  settled : ∀ order' state', getState pre ns order' pass.after = .ok state' →
    process.Settled cfg env.choices.now state' p.currentAssignments

theorem assigns_of_written {p : process.Planned} {shards available : List String} {s₁ : Store (Value F)}
    (hread : getState pre ns env.readOrder pass.before = .ok state)
    (hactive : ∃ executorID, state.Assignable (staleExecutors cfg env.choices.now state) executorID)
    (hdecision : process.rebalanceShardsImpl env.choices cfg state =
      .ok (.assignShards (plannedRequest cfg env.choices state p)))
    (hallots : process.Allots env.choices cfg state (staleExecutors cfg env.choices.now state) p shards available)
    (hops : HasOperations (plannedRequest cfg env.choices state p))
    (hassigned : Assigned pre ns (plannedRequest cfg env.choices state p) pass.before s₁)
    (hafter : pass.after = recordShardStatisticsBatch pre ns
      (statisticsUpdates env.choices cfg state (plannedRequest cfg env.choices state p)) env.statisticsFates s₁)
    (hmoves : p.loadBalanceMoves = pass.moves) (herr : pass.cleanupErr = none) :
    Assigns pre ns cfg env state pass p shards available := by
  have hsweeps := sweeps_assignShards env.statisticsFates hread hdecision hassigned
  rw [← hafter] at hsweeps
  have hplan := replicas.plan_of_read hread hdecision
  have hrecords : ∀ executorID,
      pass.after.get (assignedStateKey pre ns executorID) = s₁.get (assignedStateKey pre ns executorID) := by
    intro executorID
    rw [hafter]
    rcases get_recordShardStatisticsBatch (statisticsUpdates env.choices cfg state
      (plannedRequest cfg env.choices state p)) env.statisticsFates s₁ (assignedStateKey pre ns executorID) with
        hsame | ⟨update, -, hkey, -⟩
    · exact hsame
    · cases (buildExecutorKey_inj ExecutorKeyType.known_assignedState (by trivial) hkey).2
  have hids : ∀ executorID ∈ (plannedRequest cfg env.choices state p).newState.shardAssignments, SlashFree executorID :=
    fun executorID hmem => (getState_describes hread).2 (mem_executors_of_request hread hallots hmem).1
  refine ⟨hactive, hmoves, herr, ?_, ?_, hsweeps, hallots, hops, fun order' state' hread' => ?_⟩
  · rcases hops with ⟨executorID, hstale⟩ | ⟨executorID, hmem, hwritten⟩
    · exact .inr (removesExecutor_of_sweeps hread hsweeps hstale (mem_executors_of_stale hstale))
    · exact .inl (changesRecord_of_written hread hallots hassigned hplan.slashFree hrecords hmem hwritten)
  · rw [hafter]
    refine decodes_recordShardStatisticsBatch (fun update hmem hne => ?_) _
      (decodes_of_assigned hids hassigned (getState_isOk_iff.mp ⟨state, hread⟩))
    exact hids _ ((mem_statisticsUpdates hmem).2 hne)
  · refine hallots.settled (hsweeps.outlives hread hread') ?_ ?_
    · exact fun hlookup => isUnchanged_after hallots hassigned hplan.slashFree hrecords hread hread' hlookup
    · exact fun hnot => not_stores_after hallots hassigned hplan.slashFree hrecords hread hread' hnot

/-- A pass that returns no error sends nothing, cleans up or assigns. -/
theorem pass_cases (h : rebalanceShardsImpl pre ns cfg env s = some pass) :
    pass.before = s ∧ ∃ state, getState pre ns env.readOrder s = .ok state ∧
      (pass.after = s ∧ pass.transactions = 0 ∧ pass.cleanupErr = none ∨ CleansUp pre ns cfg env state pass ∨
        ∃ p shards available, Assigns pre ns cfg env state pass p shards available) := by
  obtain ⟨state, hread, rfl, hmoves, hquiet | ⟨executorIDs, hdecision, hfinish⟩ |
    ⟨request, s₁, hdecision, hassign, hafter, htransactions, herr⟩⟩ := rebalanceShardsImpl_cases h
  · exact ⟨rfl, state, hread, .inl hquiet⟩
  · exact ⟨rfl, state, hread, .inr (.inl (cleansUp_of_delete hread hdecision hfinish))⟩
  · refine ⟨rfl, state, hread, ?_⟩
    rcases process.rebalanceShardsImpl_ok rfl hdecision with
      ⟨-, hother | ⟨-, hother⟩⟩ | ⟨hactive, p, hplan, ⟨-, hother⟩ | ⟨-, hrequest⟩⟩
    · cases hother
    · cases hother
    · cases hother
    cases hrequest
    obtain ⟨shards, available, hallots⟩ := process.allots_of_planAssignments hactive hplan
    rw [plannedMoves, hplan] at hmoves
    rcases assignShards_cases hassign with ⟨hnone, -, rfl⟩ | ⟨-, e, he, -⟩ | ⟨hops, -, hassigned, -⟩
    · rw [statisticsUpdates_eq_nil hallots hnone] at hafter htransactions
      rw [if_pos (assignmentOps_eq_nil_iff.mpr hnone)] at htransactions
      exact .inl ⟨hafter, htransactions, herr⟩
    · cases he
    · exact .inr (.inr ⟨p, shards, available,
        assigns_of_written hread hactive hdecision hallots hops hassigned hafter hmoves.symm herr⟩)

end Writes

section Order

/-- What the namespace is like after some executors were removed: everybody else
is as before. -/
structure Cleaned {F : Type} (removed : Map String Int) (state state' : NamespaceState F) : Prop extends
    process.Outlives removed state state' where
  stays : ∀ executorID ∈ state.executors, executorID ∉ removed → executorID ∈ state'.executors
  records : ∀ executorID, executorID ∉ removed →
    state'.shardAssignments.lookup executorID = state.shardAssignments.lookup executorID

variable [Float64 F]

/-- What the namespace is like after shards were assigned in it. -/
structure InOrder (cfg : process.Config F) (now : Time) (state state' : NamespaceState F) : Prop where
  fresh : ∀ executorID, executorID ∉ staleExecutors cfg now state'
  assignable : ∀ executorID, state'.Assignable (staleExecutors cfg now state') executorID ↔
    state.Assignable (staleExecutors cfg now state) executorID
  /-- Each shard to be distributed has one owner. -/
  served : ∀ {shardID}, state.Wanted cfg.namespaceCfg shardID →
    ∃ owner, state.Assignable (staleExecutors cfg now state) owner ∧
      ∀ executorID, state'.Stores executorID shardID ↔ executorID = owner
  /-- And nothing else is stored: no drained shard, and none that is done. -/
  wanted : ∀ {executorID shardID}, state'.Stores executorID shardID → state.Wanted cfg.namespaceCfg shardID

variable [LawfulFloat64 F] [DecidableEq F] [Encoding F] {cfg : process.Config F} {env : Environment F}
  {pass : Pass F} {state state' : NamespaceState F} {order order' : RangeOrder}

omit [Float64 F] [LawfulFloat64 F] [DecidableEq F] in
theorem cleaned_of_sweeps {removed : Map String Int} (hsweeps : Sweeps pre ns removed state s s')
    (hintact : ∀ {executorID}, SlashFree executorID → executorID ∉ removed → Intact pre ns executorID s s')
    (hread : getState pre ns order s = .ok state) (hread' : getState pre ns order' s' = .ok state') :
    Cleaned removed state state' where
  toOutlives := hsweeps.outlives hread hread'
  stays := by
    intro executorID hmem hnot
    have hid := (getState_describes hread).2 hmem
    obtain ⟨key, kt, hkey, hknown, hget⟩ := (mem_executors_iff hread).mp hmem
    obtain ⟨hprefixed, -, hversion⟩ := hasPrefix_of_parse hkey
    refine (mem_executors_iff hread').mpr ⟨key, kt, hkey, hknown, ?_⟩
    rwa [hintact hid hnot key hprefixed hversion]
  records := by
    intro executorID hnot
    refine Option.ext fun record => ?_
    rw [(getState_describes hread).1.assignments, (getState_describes hread').1.assignments, RecordAt, RecordAt]
    refine and_congr_right fun hid => ?_
    have hget : s'.get (assignedStateKey pre ns executorID) = s.get (assignedStateKey pre ns executorID) :=
      hintact hid hnot _ (hasPrefix_append _ _)
        (executorKey_ne_version executorID .assignedState)
    rw [hget]

omit [LawfulFloat64 F] [DecidableEq F] in
theorem Assigns.inOrder {p : process.Planned} {shards available : List String}
    (h : Assigns pre ns cfg env state pass p shards available) (hread : getState pre ns order pass.before = .ok state)
    (hread' : getState pre ns order' pass.after = .ok state') : InOrder cfg env.choices.now state state' := by
  have houtlives := h.sweeps.outlives hread hread'
  have hsettled := h.settled order' state' hread'
  have hwanted : ∀ shardID, shardID ∈ ListMap.elements p.currentAssignments ↔
      state.Wanted cfg.namespaceCfg shardID := by
    intro shardID
    rw [h.allots.distributes.perm.mem_iff, h.allots.mem_available_iff]
  refine ⟨houtlives.fresh, fun _ => houtlives.assignable_iff, ?_, ?_⟩
  · intro shardID hshard
    obtain ⟨owner, hindex⟩ := ListMap.mem_elements.mp ((hwanted shardID).mpr hshard)
    refine ⟨owner, (h.allots.distributes.keys owner).mp ?_, fun executorID => ?_⟩
    · exact Map.mem_iff_exists_lookup.mpr ⟨_, ListMap.lookup_of_mem_index hindex⟩
    · rw [hsettled.stores_iff]
      constructor
      · exact fun hother => ListMap.index_unique hsettled.nodup hother hindex
      · rintro rfl
        exact hindex
  · intro executorID shardID hstores
    exact (hwanted shardID).mp (ListMap.mem_elements.mpr ⟨executorID, (hsettled.stores_iff _ _).mp hstores⟩)

/-- Whatever the namespace stores, a pass that returns no error sends nothing or
leaves it readable. If somebody is assignable, it leaves it in order: stale
executors are gone, every shard to be distributed is stored under exactly one
assignable executor, and nothing else is stored. If nobody is, it only removes
stale executors, all of them unless the cleanup fails, each of them wholly. -/
theorem pass_establishes (pre ns : String) (cfg : process.Config F) (env : Environment F) (s : Store (Value F))
    (pass : Pass F) (h : rebalanceShardsImpl pre ns cfg env s = some pass) :
    pass.after = s ∧ pass.transactions = 0 ∨
      ∃ state, getState pre ns env.readOrder s = .ok state ∧
        ∀ order', ∃ state', getState pre ns order' pass.after = .ok state' ∧
          ((∃ executorID, state.Assignable (staleExecutors cfg env.choices.now state) executorID) ∧
              InOrder cfg env.choices.now state state' ∨
            (∀ executorID, ¬state.Assignable (staleExecutors cfg env.choices.now state) executorID) ∧
              ∃ removed : Map String Int,
                (∀ executorID ∈ removed, executorID ∈ staleExecutors cfg env.choices.now state) ∧
                (pass.cleanupErr = none → removed = staleExecutors cfg env.choices.now state) ∧
                Cleaned removed state state') := by
  obtain ⟨rfl, state, hread, ⟨hafter, hnone, -⟩ | hcleans | ⟨p, shards, available, hassigns⟩⟩ := pass_cases h
  · exact .inl ⟨hafter, hnone⟩
  · refine .inr ⟨state, hread, fun order' => ?_⟩
    obtain ⟨state', hread'⟩ := getState_isOk_iff.mpr hcleans.decodes
    obtain ⟨removed, hremoved, hall, hsweeps, hintact⟩ := hcleans.removes
    exact ⟨state', hread', .inr ⟨hcleans.idle, removed, hremoved, hall, cleaned_of_sweeps hsweeps hintact hread hread'⟩⟩
  · refine .inr ⟨state, hread, fun order' => ?_⟩
    obtain ⟨state', hread'⟩ := getState_isOk_iff.mpr hassigns.decodes
    exact ⟨state', hread', .inl ⟨hassigns.active, hassigns.inOrder hread hread'⟩⟩

/-- Executor `a` has one of two shards and `b` has none. -/
def halfAssigned : Store (Value ExactFloat) :=
  (Txn.flat [] [
    .put (buildExecutorKey "/shards" "orders" "a" .heartbeat) (.time 1),
    .put (buildExecutorKey "/shards" "orders" "a" .status) (.status .active),
    .put (assignedStateKey "/shards" "orders" "a") (.assignedState ⟨[("0", some ⟨.ready⟩)], [], 0⟩),
    .put (buildExecutorKey "/shards" "orders" "b" .heartbeat) (.time 1),
    .put (buildExecutorKey "/shards" "orders" "b" .status) (.status .active)] []).next .empty

def twoShards : process.Config ExactFloat :=
  { process.threeShards with namespaceCfg := ⟨"orders", .fixed, 2⟩ }

def exampleEnvironment : Environment ExactFloat :=
  ⟨.stored, process.firstChoices, nopGuard, 128, .delivered, [], fun _ => .delivered⟩

theorem halfAssigned_established : ∃ (pass : Pass ExactFloat) (state : NamespaceState ExactFloat),
    rebalanceShardsImpl "/shards" "orders" twoShards exampleEnvironment halfAssigned = some pass ∧
    pass.transactions = 1 ∧
    getState "/shards" "orders" exampleEnvironment.readOrder halfAssigned = .ok state ∧
    ∀ order', ∃ state', getState "/shards" "orders" order' pass.after = .ok state' ∧
      InOrder twoShards exampleEnvironment.choices.now state state' := by
  have heval : (rebalanceShardsImpl "/shards" "orders" twoShards exampleEnvironment halfAssigned).map
      (fun pass => pass.transactions) = some 1 := by
    decide +kernel
  have hsome : (getState "/shards" "orders" exampleEnvironment.readOrder halfAssigned).map (fun state =>
      (state.assignableExecutorIDs (staleExecutors twoShards exampleEnvironment.choices.now state)).length) = .ok 2 := by
    decide +kernel
  obtain ⟨pass, hpass, htransactions⟩ := Option.map_eq_some_iff.mp heval
  rcases pass_establishes "/shards" "orders" twoShards exampleEnvironment halfAssigned pass hpass with
    ⟨-, hnone⟩ | ⟨state, hread, hestablished⟩
  · cases htransactions.symm.trans hnone
  · refine ⟨pass, state, hpass, htransactions, hread, fun order' => ?_⟩
    obtain ⟨state', hread', ⟨-, hinOrder⟩ | ⟨hidle, -⟩⟩ := hestablished order'
    · exact ⟨state', hread', hinOrder⟩
    · rw [hread] at hsome
      obtain ⟨executorID, hmem⟩ := List.exists_mem_of_length_pos ((Except.ok.inj hsome).symm ▸ Nat.two_pos)
      exact absurd (NamespaceState.mem_assignableExecutorIDs.mp hmem) (hidle executorID)

end Order

end leader
