import ShardManager.Process.DoneShards
import ShardManager.Process.Request
import ShardManager.Process.Stealing

open golang store plan types

namespace store.NamespaceState

variable {F : Type}

/-- The shards a rebalance distributes. In an ephemeral namespace these are
stored already, and nobody reports them DONE. -/
def Wanted (state : NamespaceState F) (cfg : config.Namespace) (shardID : String) : Prop :=
  state.isShardDrained shardID = false ∧
    match cfg.type with
    | .fixed => shardID ∈ (List.range cfg.shardNum.toNat).map toString
    | .ephemeral =>
      (∃ executorID, state.Stores executorID shardID) ∧ ∀ executorID, ¬state.ReportsDone executorID shardID
    | .other _ => False

end store.NamespaceState

namespace process

variable {F : Type}

theorem mem_identifyStaleExecutors {heartbeatTTL : Duration} {now : Time} {state : NamespaceState F}
    {executorID : String} : executorID ∈ identifyStaleExecutors heartbeatTTL now state ↔
      ∃ heartbeat, state.executors.lookup executorID = some heartbeat ∧
        heartbeatTTL < now.sub heartbeat.lastHeartbeat := by
  rw [identifyStaleExecutors, Map.mem_ofList]
  simp [Function.comp_def, Map.mem_toList_iff]

theorem lookup_readyShards {shardIDs : List String} {shardID : String} {assignment : Option ShardAssignment} :
    (readyShards shardIDs).lookup shardID = some assignment ↔ shardID ∈ shardIDs ∧ assignment = some ⟨.ready⟩ := by
  constructor
  · intro hlookup
    obtain ⟨_, hmem, heq⟩ := List.mem_map.mp (Map.mem_of_lookup_ofList hlookup)
    cases heq
    exact ⟨hmem, rfl⟩
  · rintro ⟨hmem, rfl⟩
    obtain ⟨assignment, hlookup⟩ := Map.mem_iff_exists_lookup.mp (mem_readyShards.mpr hmem)
    obtain ⟨_, -, heq⟩ := List.mem_map.mp (Map.mem_of_lookup_ofList hlookup)
    cases heq
    exact hlookup

/-- A record is unchanged if it holds the given shards, all READY. -/
theorem isUnchanged_iff {state : NamespaceState F} {executorID : String} {shardIDs : List String} :
    isUnchanged state executorID shardIDs = true ↔
      ∃ record, state.shardAssignments.lookup executorID = some record ∧
        (∀ shardID, shardID ∈ record.assignedShards ↔ shardID ∈ shardIDs) ∧
        ∀ shardID assignment, record.assignedShards.lookup shardID = some assignment →
          ShardAssignment.getStatus assignment = .ready := by
  unfold isUnchanged
  cases hrecord : state.shardAssignments.lookup executorID with
  | none => simp
  | some record =>
    simp only [Option.some.injEq, exists_eq_left']
    rw [shardSetsEqual_iff]
    constructor
    · intro hsame
      have hmem := fun shardID => (hsame.mem_iff shardID).trans mem_readyShards
      refine ⟨hmem, fun shardID assignment hlookup => ?_⟩
      have hshard := (hmem shardID).mp (Map.mem_iff_exists_lookup.mpr ⟨_, hlookup⟩)
      have hstatus := hsame shardID
      rw [hlookup, lookup_readyShards.mpr ⟨hshard, rfl⟩] at hstatus
      exact Option.some_inj.mp hstatus
    · rintro ⟨hmem, hstatus⟩ shardID
      cases hlookup : record.assignedShards.lookup shardID with
      | none =>
        have hnot : shardID ∉ readyShards shardIDs := by
          rw [mem_readyShards, ← hmem]
          exact AList.lookup_eq_none.mp hlookup
        rw [AList.lookup_eq_none.mpr hnot]
      | some assignment =>
        have hshard := (hmem shardID).mp (Map.mem_iff_exists_lookup.mpr ⟨_, hlookup⟩)
        rw [lookup_readyShards.mpr ⟨hshard, rfl⟩]
        exact congrArg some (hstatus shardID assignment hlookup)

section Later

/-- The parts of a heartbeat that a rebalance goes by. -/
structure SameHeartbeat (heartbeat heartbeat' : HeartbeatState F) : Prop where
  lastHeartbeat : heartbeat'.lastHeartbeat = heartbeat.lastHeartbeat
  status : heartbeat'.status = heartbeat.status
  reportedShards : heartbeat'.reportedShards = heartbeat.reportedShards
  hostMetadata : heartbeat'.hostMetadata = heartbeat.hostMetadata

/-- A snapshot taken after a pass that only removed certain executors: nobody
joins, the other assignable executors stay, and heartbeats and drains are as
they were. Assignments may differ. -/
structure Outlives (removed : Map String Int) (state state' : NamespaceState F) : Prop where
  heartbeat : ∀ {executorID heartbeat'}, state'.executors.lookup executorID = some heartbeat' →
    executorID ∉ removed ∧ ∃ heartbeat, state.executors.lookup executorID = some heartbeat ∧
      SameHeartbeat heartbeat heartbeat'
  assignable : ∀ {executorID}, state.Assignable removed executorID → executorID ∈ state'.executors
  drainedShards : ∀ shardID, state'.isShardDrained shardID = state.isShardDrained shardID
  drainedHosts : ∀ hostname, state'.isHostDrained hostname = state.isHostDrained hostname

theorem SameHeartbeat.hostname_eq {heartbeat heartbeat' : HeartbeatState F} (h : SameHeartbeat heartbeat heartbeat') :
    heartbeat'.hostname = heartbeat.hostname := by
  rw [HeartbeatState.hostname, h.hostMetadata, HeartbeatState.hostname]

namespace Outlives

section Removed

variable {removed : Map String Int} {state state' : NamespaceState F} (h : Outlives removed state state')

include h

/-- Whoever is stale now was stale before, and has not been removed. -/
theorem stale_before {ttl : Int} {now : Time} {executorID : String}
    (hstale : executorID ∈ identifyStaleExecutors ttl now state') :
    executorID ∈ identifyStaleExecutors ttl now state ∧ executorID ∉ removed := by
  obtain ⟨heartbeat', hlookup', hold⟩ := mem_identifyStaleExecutors.mp hstale
  obtain ⟨hnot, heartbeat, hlookup, hsame⟩ := h.heartbeat hlookup'
  rw [hsame.lastHeartbeat] at hold
  exact ⟨mem_identifyStaleExecutors.mpr ⟨heartbeat, hlookup, hold⟩, hnot⟩

/-- Whoever is assignable now was so before. -/
theorem assignable_before {ttl : Int} {now : Time} {executorID : String}
    (hassignable : state'.Assignable (identifyStaleExecutors ttl now state') executorID) :
    state.Assignable (identifyStaleExecutors ttl now state) executorID := by
  obtain ⟨heartbeat', hlookup', hstatus, hhost, hfresh⟩ := NamespaceState.assignable_iff.mp hassignable
  obtain ⟨-, heartbeat, hlookup, hsame⟩ := h.heartbeat hlookup'
  rw [hsame.status] at hstatus
  rw [hsame.hostname_eq, h.drainedHosts] at hhost
  refine NamespaceState.assignable_iff.mpr ⟨heartbeat, hlookup, hstatus, hhost, fun hstale => hfresh ?_⟩
  obtain ⟨_, hsome, hold⟩ := mem_identifyStaleExecutors.mp hstale
  rw [hlookup, Option.some.injEq] at hsome
  subst hsome
  rw [← hsame.lastHeartbeat] at hold
  exact mem_identifyStaleExecutors.mpr ⟨heartbeat', hlookup', hold⟩

theorem reportsDone {executorID shardID : String} (hdone : state'.ReportsDone executorID shardID) :
    state.ReportsDone executorID shardID := by
  obtain ⟨heartbeat', report, hlookup', hreport, hstatus⟩ := hdone
  obtain ⟨-, heartbeat, hlookup, hsame⟩ := h.heartbeat hlookup'
  rw [hsame.reportedShards] at hreport
  exact ⟨heartbeat, report, hlookup, hreport, hstatus⟩

end Removed

variable {cfg : Config F} {now : Time} {state state' : NamespaceState F}
  (h : Outlives (identifyStaleExecutors cfg.heartbeatTTL now state) state state')

include h

theorem fresh (executorID : String) : executorID ∉ identifyStaleExecutors cfg.heartbeatTTL now state' := by
  intro hstale
  obtain ⟨hbefore, hnot⟩ := h.stale_before hstale
  exact hnot hbefore

theorem assignable_iff {executorID : String} :
    state'.Assignable (identifyStaleExecutors cfg.heartbeatTTL now state') executorID ↔
      state.Assignable (identifyStaleExecutors cfg.heartbeatTTL now state) executorID := by
  refine ⟨h.assignable_before, fun hassignable => ?_⟩
  obtain ⟨heartbeat', hlookup'⟩ := Map.mem_iff_exists_lookup.mp (h.assignable hassignable)
  obtain ⟨-, heartbeat, hlookup, hsame⟩ := h.heartbeat hlookup'
  obtain ⟨_, hsome, hstatus, hhost, -⟩ := NamespaceState.assignable_iff.mp hassignable
  rw [hlookup, Option.some.injEq] at hsome
  subst hsome
  rw [← hsame.status] at hstatus
  rw [← hsame.hostname_eq, ← h.drainedHosts] at hhost
  exact NamespaceState.assignable_iff.mpr ⟨heartbeat', hlookup', hstatus, hhost, h.fresh executorID⟩

end Outlives

end Later

section Settled

variable [Float64 F]

theorem Allots.mem_available_iff {choices : Choices} {cfg : Config F} {state : NamespaceState F}
    {stale : Map String Int} {p : Planned} {shards available : List String}
    (h : Allots choices cfg state stale p shards available) (shardID : String) :
    shardID ∈ available ↔ state.Wanted cfg.namespaceCfg shardID := by
  have hshards := h.shards_eq
  rw [h.available_iff, NamespaceState.Wanted, and_comm]
  refine and_congr_right fun _ => ?_
  cases htype : cfg.namespaceCfg.type with
  | fixed =>
    rw [getShards, htype] at hshards
    dsimp only [makeShards] at hshards
    split at hshards
    · cases hshards
    · cases hshards
      rfl
  | ephemeral =>
    rw [mem_getShards_ephemeral htype hshards, mem_findDeletedShards h.planned.deleted, not_exists]
  | other name =>
    rw [getShards, htype] at hshards
    cases hshards
    simp

/-- The stored assignments are those a rebalance would compute: no executor is
stale, the assignable executors hold the wanted shards, each once and READY,
and nobody else holds anything. -/
structure Settled (cfg : Config F) (now : Time) (state : NamespaceState F) (current : ListMap String String) :
    Prop where
  fresh : ∀ executorID, executorID ∉ identifyStaleExecutors cfg.heartbeatTTL now state
  keys : ∀ executorID, executorID ∈ current ↔
    state.Assignable (identifyStaleExecutors cfg.heartbeatTTL now state) executorID
  recorded : ∀ {executorID shardIDs}, current.lookup executorID = some shardIDs →
    isUnchanged state executorID shardIDs = true
  others : ∀ {executorID}, executorID ∉ current → ∀ shardID, ¬state.Stores executorID shardID
  nodup : (ListMap.elements current).Nodup
  wanted : ∀ shardID, shardID ∈ ListMap.elements current ↔ state.Wanted cfg.namespaceCfg shardID

/-- What a plan wrote is settled. -/
theorem Allots.settled {choices : Choices} {cfg : Config F} {state state' : NamespaceState F} {p : Planned}
    {shards available : List String}
    (h : Allots choices cfg state (identifyStaleExecutors cfg.heartbeatTTL choices.now state) p shards available)
    (houtlives : Outlives (identifyStaleExecutors cfg.heartbeatTTL choices.now state) state state')
    (hrecorded : ∀ {executorID shardIDs}, p.currentAssignments.lookup executorID = some shardIDs →
      isUnchanged state' executorID shardIDs = true)
    (hothers : ∀ {executorID}, executorID ∉ p.currentAssignments → ∀ shardID, ¬state'.Stores executorID shardID) :
    Settled cfg choices.now state' p.currentAssignments where
  fresh := houtlives.fresh
  keys executorID := (h.distributes.keys executorID).trans houtlives.assignable_iff.symm
  recorded := hrecorded
  others := hothers
  nodup := h.distributes.perm.nodup_iff.mpr h.nodup
  wanted := by
    intro shardID
    have hstores : shardID ∈ ListMap.elements p.currentAssignments ↔ ∃ executorID, state'.Stores executorID shardID := by
      rw [ListMap.mem_elements]
      constructor
      · rintro ⟨executorID, hmem⟩
        refine ⟨executorID, (stores_iff_of_isUnchanged (hrecorded (ListMap.lookup_of_mem_index hmem)) shardID).mpr hmem⟩
      · rintro ⟨executorID, hstored⟩
        have hmem : executorID ∈ p.currentAssignments := by
          by_contra hnot
          exact hothers hnot shardID hstored
        obtain ⟨shardIDs, hlookup⟩ := Map.mem_iff_exists_lookup.mp hmem
        refine ⟨executorID, ?_⟩
        rw [ListMap.index_of_lookup hlookup]
        exact (stores_iff_of_isUnchanged (hrecorded hlookup) shardID).mp hstored
    have hbefore : shardID ∈ ListMap.elements p.currentAssignments ↔ state.Wanted cfg.namespaceCfg shardID := by
      rw [h.distributes.perm.mem_iff, h.mem_available_iff]
    rw [NamespaceState.Wanted, houtlives.drainedShards]
    rw [NamespaceState.Wanted] at hbefore
    cases htype : cfg.namespaceCfg.type with
    | fixed =>
      rw [htype] at hbefore
      exact hbefore
    | ephemeral =>
      rw [htype] at hbefore
      dsimp only at hbefore ⊢
      constructor
      · intro hmem
        obtain ⟨hdrained, -, hdone⟩ := hbefore.mp hmem
        exact ⟨hdrained, hstores.mp hmem, fun executorID hdone' => hdone executorID (houtlives.reportsDone hdone')⟩
      · rintro ⟨-, hstored, -⟩
        exact hstores.mpr hstored
    | other name =>
      rw [htype] at hbefore
      exact hbefore

namespace Settled

variable {choices : Choices} {cfg : Config F} {state : NamespaceState F} {current : ListMap String String}
  (h : Settled cfg choices.now state current)

include h

omit [Float64 F] in
theorem stores_iff (executorID shardID : String) :
    state.Stores executorID shardID ↔ shardID ∈ ListMap.index current executorID := by
  by_cases hmem : executorID ∈ current
  · obtain ⟨shardIDs, hlookup⟩ := Map.mem_iff_exists_lookup.mp hmem
    rw [ListMap.index_of_lookup hlookup, stores_iff_of_isUnchanged (h.recorded hlookup)]
  · rw [ListMap.index_of_not_mem hmem]
    exact iff_of_false (h.others hmem shardID) List.not_mem_nil

variable {p : Planned} {shards available : List String}
  (hallots : Allots choices cfg state (identifyStaleExecutors cfg.heartbeatTTL choices.now state) p shards available)

include hallots

/-- Of a settled state everything is kept. -/
theorem kept : p.shardsToReassign = [] ∧ ∀ executorID shardID,
    shardID ∈ ListMap.index p.keptAssignments executorID ↔ shardID ∈ ListMap.index current executorID := by
  obtain ⟨shards', available', hshards', havailable', hfound⟩ := findShardsToReassign_ok hallots.planned.found
  have hwanted : ∀ shardID, shardID ∈ available' ↔ shardID ∈ ListMap.elements current := by
    intro shardID
    rw [havailable', h.wanted, ← hallots.mem_available_iff, hallots.available_iff]
    have hsame := hallots.shards_eq.symm.trans hshards'
    rw [Except.ok.inj hsame]
  have hnil : p.shardsToReassign = [] := by
    rw [List.eq_nil_iff_forall_not_mem]
    intro shardID hmem
    have hcurrent := (hwanted shardID).mp (hfound.perm.mem_iff.mp (List.mem_append_left _ hmem))
    obtain ⟨executorID, hindex⟩ := ListMap.mem_elements.mp hcurrent
    have hstored := (h.stores_iff executorID shardID).mpr hindex
    rcases hfound.of_reassigned hmem with ⟨other, hother, hstores⟩ | hnone
    · refine h.others (fun hmem => hother ?_) shardID hstores
      exact PlannedBy.mem_assignableExecutors.mpr (NamespaceState.mem_assignableExecutorIDs.mpr ((h.keys other).mp hmem))
    · exact hnone executorID hstored
  refine ⟨hnil, fun executorID shardID => ?_⟩
  constructor
  · exact fun hkept => (h.stores_iff executorID shardID).mp (hfound.stores_of_kept hkept)
  · intro hindex
    have havailable := (hwanted shardID).mpr (ListMap.mem_elements.mpr ⟨executorID, hindex⟩)
    rw [← hfound.perm.mem_iff, hnil, List.nil_append, ListMap.mem_elements] at havailable
    obtain ⟨other, hkept⟩ := havailable
    have hother := (h.stores_iff other shardID).mp (hfound.stores_of_kept hkept)
    rwa [ListMap.index_unique h.nodup hindex hother]

/-- A plan without moves keeps a settled state or fills every executor. -/
theorem current_cases (hmoves : p.loadBalanceMoves = []) :
    p.currentAssignments = p.keptAssignments ∨
      ∀ executorID ∈ p.currentAssignments, ListMap.index p.currentAssignments executorID ≠ [] := by
  obtain ⟨filled, updated, hfilled, hupdated, -, hcurrent⟩ := hallots.planned.rebalanced
  rw [(h.kept hallots).1, updateAssignments, if_pos rfl, Prod.mk.injEq] at hupdated
  rw [hmoves] at hcurrent
  cases hcurrent
  obtain ⟨-, rfl⟩ := hupdated
  rcases assignShardsToEmptyExecutors_fills hfilled with hsame | hfull
  · exact .inl hsame
  · refine .inr fun executorID hmem => hfull executorID ?_
    obtain ⟨_, _, -, -, hfound⟩ := findShardsToReassign_ok hallots.planned.found
    rw [hfound.keys, PlannedBy.mem_assignableExecutors, NamespaceState.mem_assignableExecutorIDs]
    exact (hallots.distributes.keys executorID).mp hmem

/-- Without empty executors nothing is left to do. -/
theorem current_of_full (hfull : ∀ executorID ∈ current, ListMap.index current executorID ≠ [])
    (hmoves : p.loadBalanceMoves = []) : p.currentAssignments = p.keptAssignments := by
  obtain ⟨hnil, hkept⟩ := h.kept hallots
  obtain ⟨filled, updated, hfilled, hupdated, -, hcurrent⟩ := hallots.planned.rebalanced
  obtain ⟨_, _, -, -, hfound⟩ := findShardsToReassign_ok hallots.planned.found
  have hnonempty : ∀ executorID ∈ p.keptAssignments, ListMap.index p.keptAssignments executorID ≠ [] := by
    intro executorID hmem
    rw [hfound.keys, PlannedBy.mem_assignableExecutors, NamespaceState.mem_assignableExecutorIDs, ← h.keys] at hmem
    obtain ⟨shardID, hshard⟩ := List.exists_mem_of_ne_nil _ (hfull executorID hmem)
    exact List.ne_nil_of_mem ((hkept executorID shardID).mpr hshard)
  rw [assignShardsToEmptyExecutors_of_nonempty hnonempty, Except.ok.injEq, Prod.mk.injEq] at hfilled
  rw [hnil, updateAssignments, if_pos rfl, Prod.mk.injEq] at hupdated
  rw [hmoves] at hcurrent
  cases hcurrent
  rw [← hupdated.2, hfilled.2]

/-- Writing back what was kept needs no operation. -/
theorem not_hasOperations (hkept : p.currentAssignments = p.keptAssignments) :
    ¬executorstore.HasOperations (assignShardsRequest choices state
      (identifyStaleExecutors cfg.heartbeatTTL choices.now state) p) := by
  rintro (⟨executorID, hstale⟩ | ⟨executorID, -, hwritten⟩)
  · exact h.fresh executorID hstale
  · rcases isWritten_iff.mp hwritten with ⟨shardIDs, hlookup, hchanged⟩ | hunassign
    · have hmem : executorID ∈ current := by
        rw [h.keys, ← hallots.distributes.keys]
        exact Map.mem_iff_exists_lookup.mpr ⟨_, hlookup⟩
      obtain ⟨stored, hstored⟩ := Map.mem_iff_exists_lookup.mp hmem
      obtain ⟨record, hrecord, hshards, hready⟩ := isUnchanged_iff.mp (h.recorded hstored)
      have hunchanged : isUnchanged state executorID shardIDs = true := by
        refine isUnchanged_iff.mpr ⟨record, hrecord, fun shardID => ?_, hready⟩
        rw [hshards, ← ListMap.index_of_lookup hstored, ← ListMap.index_of_lookup hlookup, hkept]
        exact ((h.kept hallots).2 executorID shardID).symm
      rw [hunchanged] at hchanged
      cases hchanged
    · obtain ⟨⟨shardID, hstores⟩, hnot, -⟩ := (hallots.unassign executorID).mp hunassign
      exact h.others (fun hmem => hnot ((h.keys executorID).mp hmem)) shardID hstores

end Settled

end Settled

end process
