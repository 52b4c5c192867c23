import ShardManager.Process.Assignments

open golang store plan types

namespace store.NamespaceState

variable {F : Type}

/-- The last heartbeat of an executor reports a shard DONE. -/
def ReportsDone (state : NamespaceState F) (executorID shardID : String) : Prop :=
  ∃ heartbeat report, state.executors.lookup executorID = some heartbeat ∧
    heartbeat.reportedShards.lookup shardID = some (some report) ∧ report.status = .done

end store.NamespaceState

namespace process

variable {F : Type}

/-- Deletion is decided from the reports of all executors together. -/
theorem mem_findDeletedShards {order : RangeOrder} {state : NamespaceState F}
    {deleted : Map String ShardState} (h : findDeletedShards order state = .ok deleted)
    (shardID : String) : shardID ∈ deleted ↔ ∃ executorID, state.ReportsDone executorID shardID := by
  unfold findDeletedShards at h
  dsimp only at h
  split at h
  · cases h
  · cases h
    rw [Map.mem_ofList, List.mem_map]
    constructor
    · rintro ⟨⟨s, owner⟩, hmem, rfl⟩
      obtain ⟨⟨executorID, s', report⟩, hreport, hdone⟩ := List.mem_filterMap.mp hmem
      obtain ⟨⟨e, heartbeat⟩, he, hreports⟩ := List.mem_flatMap.mp hreport
      obtain ⟨⟨s'', r⟩, hr, heq⟩ := List.mem_map.mp hreports
      cases heq
      cases r with
      | none => cases hdone
      | some r =>
        dsimp only at hdone
        split at hdone
        · rename_i hstatus
          cases hdone
          exact ⟨e, heartbeat, r, RangeOrder.mem_range_iff.mp he,
            RangeOrder.mem_range_iff.mp hr, hstatus⟩
        · cases hdone
    · rintro ⟨executorID, heartbeat, report, he, hr, hstatus⟩
      refine ⟨(shardID, ⟨executorID⟩), List.mem_filterMap.mpr ⟨(executorID, shardID, some report), ?_, ?_⟩, rfl⟩
      · refine List.mem_flatMap.mpr ⟨(executorID, heartbeat), RangeOrder.mem_range_iff.mpr he, ?_⟩
        exact List.mem_map.mpr ⟨(shardID, some report), RangeOrder.mem_range_iff.mpr hr, rfl⟩
      · simp [hstatus]

theorem mem_getShards_ephemeral {order : RangeOrder} {cfg : config.Namespace} {state : NamespaceState F}
    {deleted : Map String ShardState} {shards : List String} (hcfg : cfg.type = .ephemeral)
    (h : getShards order cfg state deleted = .ok shards) (shardID : String) :
    shardID ∈ shards ↔ (∃ executorID, state.Stores executorID shardID) ∧ shardID ∉ deleted := by
  rw [getShards, hcfg] at h
  cases h
  simp only [List.mem_flatMap, Prod.exists, RangeOrder.mem_range_iff, List.mem_filter,
    RangeOrder.mem_rangeKeys, decide_eq_true_eq, NamespaceState.stores_iff]
  constructor
  · rintro ⟨e, assigned, hlookup, hmem, hdeleted⟩
    exact ⟨⟨e, assigned, hlookup, hmem⟩, hdeleted⟩
  · rintro ⟨⟨e, assigned, hlookup, hmem⟩, hdeleted⟩
    exact ⟨e, assigned, hlookup, hmem, hdeleted⟩

variable [Float64 F] [LawfulFloat64 F]

/-- In an ephemeral namespace, what a rebalance drops was reported DONE by the
executor storing it exactly if every undrained stored shard reported DONE by
anyone is. A report left by a previous owner removes the shard of its current
owner otherwise. -/
theorem dropped_reported_by_owner_iff (choices : Choices) (cfg : Config F) (state : NamespaceState F)
    (p : Planned) (hcfg : cfg.namespaceCfg.type = .ephemeral)
    (hactive : ∃ executorID,
      state.Assignable (identifyStaleExecutors cfg.heartbeatTTL choices.now state) executorID)
    (hplan : planAssignments choices cfg state
      (identifyStaleExecutors cfg.heartbeatTTL choices.now state)
      (state.assignableExecutorIDs (identifyStaleExecutors cfg.heartbeatTTL choices.now state)) = .ok p) :
    (∀ executorID shardID, state.Stores executorID shardID → state.isShardDrained shardID = false →
      (∀ e, shardID ∉ ListMap.index p.currentAssignments e) → state.ReportsDone executorID shardID) ↔
    (∀ executorID shardID, state.Stores executorID shardID → state.isShardDrained shardID = false →
      (∃ e, state.ReportsDone e shardID) → state.ReportsDone executorID shardID) := by
  have hplanned := planAssignments_ok hplan
  obtain ⟨shards, available, hshards, havailable, hfound⟩ := findShardsToReassign_ok hplanned.found
  obtain ⟨first, hfirst⟩ := hactive
  have hdist := hplanned.distributes
    (List.ne_nil_of_mem (NamespaceState.mem_assignableExecutorIDs.mpr hfirst)) hfound
  have hdropped : ∀ {executorID shardID}, state.Stores executorID shardID →
      state.isShardDrained shardID = false →
      ((∀ e, shardID ∉ ListMap.index p.currentAssignments e) ↔ ∃ e, state.ReportsDone e shardID) := by
    intro executorID shardID hstores hdrained
    rw [← not_exists, ← ListMap.mem_elements, hdist.perm.mem_iff, havailable,
      mem_getShards_ephemeral hcfg hshards, ← mem_findDeletedShards hplanned.deleted]
    simp only [hdrained, and_true, not_and, not_not]
    exact ⟨fun h => h ⟨executorID, hstores⟩, fun h _ => h⟩
  constructor
  · intro h executorID shardID hstores hdrained hdone
    exact h executorID shardID hstores hdrained ((hdropped hstores hdrained).mpr hdone)
  · intro h executorID shardID hstores hdrained hnone
    exact h executorID shardID hstores hdrained ((hdropped hstores hdrained).mp hnone)

section Examples

def ephemeralOrders : Config ExactFloat :=
  { threeShards with namespaceCfg := ⟨"orders", .ephemeral, 0⟩ }

/-- The owner of a shard reports it DONE. -/
def doneByOwner : NamespaceState ExactFloat :=
  .ofStored [("a", reporting [("s", .done)]), ("b", reporting [])] [("a", ["s"]), ("b", ["t"])]

/-- The shard has moved to `a`, and `b` has not sent a heartbeat since. -/
def doneByPreviousOwner : NamespaceState ExactFloat :=
  .ofStored [("a", reporting [("s", .ready)]), ("b", reporting [("s", .done)])] [("a", ["s"]), ("b", ["t"])]

theorem doneByOwner_reported : doneByOwner.ReportsDone "a" "s" :=
  ⟨_, _, rfl, rfl, rfl⟩

theorem not_reported_doneByOwner : ¬∃ e, doneByOwner.ReportsDone e "t" := by
  obtain ⟨deleted, hdeleted⟩ :=
    exists_ok_of_isOk (x := findDeletedShards .stored doneByOwner) (by decide)
  rw [← mem_findDeletedShards hdeleted]
  cases hdeleted
  decide

/-- The hypotheses hold when the owner itself reports the shard, and then only
its own report removes it. -/
theorem doneByOwner_dropped :
    ∃ p : Planned, planAssignments firstChoices ephemeralOrders doneByOwner
        (identifyStaleExecutors ephemeralOrders.heartbeatTTL firstChoices.now doneByOwner)
        (doneByOwner.assignableExecutorIDs
          (identifyStaleExecutors ephemeralOrders.heartbeatTTL firstChoices.now doneByOwner)) = .ok p ∧
      ∀ executorID shardID, doneByOwner.Stores executorID shardID → doneByOwner.isShardDrained shardID = false →
        (∀ e, shardID ∉ ListMap.index p.currentAssignments e) → doneByOwner.ReportsDone executorID shardID := by
  obtain ⟨p, hp⟩ := exists_ok_of_isOk (x := planAssignments firstChoices ephemeralOrders doneByOwner
    (identifyStaleExecutors ephemeralOrders.heartbeatTTL firstChoices.now doneByOwner)
    (doneByOwner.assignableExecutorIDs
      (identifyStaleExecutors ephemeralOrders.heartbeatTTL firstChoices.now doneByOwner)))
    (by decide +kernel)
  refine ⟨p, hp, (dropped_reported_by_owner_iff firstChoices ephemeralOrders doneByOwner p rfl
    ⟨"a", _, rfl, by decide +kernel⟩ hp).mpr ?_⟩
  intro executorID shardID hstores _ hdone
  obtain ⟨shardIDs, hstored, hmem⟩ := (NamespaceState.stores_ofStored (by decide)).mp hstores
  rw [List.mem_cons, List.mem_singleton, Prod.mk.injEq, Prod.mk.injEq] at hstored
  rcases hstored with ⟨rfl, rfl⟩ | ⟨rfl, rfl⟩
  · rw [List.mem_singleton] at hmem
    subst hmem
    exact doneByOwner_reported
  · rw [List.mem_singleton] at hmem
    subst hmem
    exact absurd hdone not_reported_doneByOwner

/-- A DONE entry left in the last report of the previous owner removes the
shard from the executor it is assigned to, which reports it READY. -/
theorem doneByPreviousOwner_dropped :
    ∃ p, planAssignments firstChoices ephemeralOrders doneByPreviousOwner
        (identifyStaleExecutors ephemeralOrders.heartbeatTTL firstChoices.now doneByPreviousOwner)
        (doneByPreviousOwner.assignableExecutorIDs
          (identifyStaleExecutors ephemeralOrders.heartbeatTTL firstChoices.now doneByPreviousOwner)) = .ok p ∧
      doneByPreviousOwner.Stores "a" "s" ∧ doneByPreviousOwner.isShardDrained "s" = false ∧
      (∀ e, "s" ∉ ListMap.index p.currentAssignments e) ∧ ¬doneByPreviousOwner.ReportsDone "a" "s" := by
  obtain ⟨p, hp⟩ := exists_ok_of_isOk (x := planAssignments firstChoices ephemeralOrders doneByPreviousOwner
    (identifyStaleExecutors ephemeralOrders.heartbeatTTL firstChoices.now doneByPreviousOwner)
    (doneByPreviousOwner.assignableExecutorIDs
      (identifyStaleExecutors ephemeralOrders.heartbeatTTL firstChoices.now doneByPreviousOwner)))
    (by decide +kernel)
  refine ⟨p, hp, by decide, by decide, ?_, ?_⟩
  · have helements : (planAssignments firstChoices ephemeralOrders doneByPreviousOwner
        (identifyStaleExecutors ephemeralOrders.heartbeatTTL firstChoices.now doneByPreviousOwner)
        (doneByPreviousOwner.assignableExecutorIDs (identifyStaleExecutors ephemeralOrders.heartbeatTTL
          firstChoices.now doneByPreviousOwner))).toOption.map
        (fun p => decide ("s" ∈ ListMap.elements p.currentAssignments)) = some false := by
      decide +kernel
    rw [hp] at helements
    have hnot : "s" ∉ ListMap.elements p.currentAssignments := of_decide_eq_false (Option.some.inj helements)
    exact fun e he => hnot (ListMap.mem_elements.mpr ⟨e, he⟩)
  · rintro ⟨heartbeat, report, hlookup, hreport, hstatus⟩
    cases hlookup
    cases hreport
    cases hstatus

end Examples

end process
