import ShardManager.Golang.Rational
import ShardManager.Statistics.Writes

open golang etcd etcdkeys store types executorstore

namespace greedy

variable {F : Type}

section Updates

/-- The new assignments give a shard to an executor. -/
def Given (newAssignments : Map String AssignedState) (executorID shardID : String) : Prop :=
  ∃ state, newAssignments.lookup executorID = some state ∧ shardID ∈ state.assignedShards

/-- The executor is given a shard that was not its own. -/
def Gains (previousOwnersByShard : Map String String) (newAssignments : Map String AssignedState)
    (executorID : String) : Prop :=
  ∃ shardID, Given newAssignments executorID shardID ∧ previousOwnersByShard.lookup shardID ≠ some executorID

/-- A shard of the executor is given to another one. -/
def Loses (previousOwnersByShard : Map String String) (newAssignments : Map String AssignedState)
    (executorID : String) : Prop :=
  ∃ shardID other, other ≠ executorID ∧ Given newAssignments other shardID ∧
    previousOwnersByShard.lookup shardID = some executorID

/-- What becomes of the statistics of a shard, by who owned it before. -/
structure Carries [Float64 F] (previousOwner : Option String) (previous : Option (ShardStatistics F)) (now : Time)
    (executorID : String) (statistic : ShardStatistics F) : Prop where
  moved : ∀ {owner old}, previousOwner = some owner → owner ≠ executorID → previous = some old →
    statistic.smoothedLoad = old.smoothedLoad ∧ statistic.lastUpdateTime = old.lastUpdateTime ∧
      statistic.lastMoveTime = now
  same : previousOwner = some executorID → statistic = previous.getD .zero
  unowned : previousOwner = none → statistic = .zero

/-- The updates are about the executors whose shards changed, one for each, and
complete. -/
structure Updates [Float64 F] (previousOwnersByShard : Map String String) (newAssignments : Map String AssignedState)
    (previousStatistics : Map String (ShardStatistics F)) (now : Time)
    (updates : List (ExecutorShardStatistics F)) : Prop where
  once : (updates.map ExecutorShardStatistics.executorID).Nodup
  affected : ∀ executorID, executorID ∈ updates.map ExecutorShardStatistics.executorID ↔
    Gains previousOwnersByShard newAssignments executorID ∨ Loses previousOwnersByShard newAssignments executorID
  covers : ∀ update ∈ updates, ∀ shardID,
    shardID ∈ update.statistics ↔ Given newAssignments update.executorID shardID
  carries : ∀ update ∈ updates, ∀ shardID statistic, update.statistics.lookup shardID = some statistic →
    Carries (previousOwnersByShard.lookup shardID) (previousStatistics.lookup shardID) now update.executorID statistic

theorem mem_findAffectedExecutors_iff {previousOwnersByShard : Map String String}
    {newAssignments : Map String AssignedState} {executorID : String} :
    executorID ∈ findAffectedExecutors previousOwnersByShard newAssignments ↔
      Gains previousOwnersByShard newAssignments executorID ∨
        Loses previousOwnersByShard newAssignments executorID := by
  rw [mem_findAffectedExecutors]
  constructor
  · rintro ⟨newOwnerID, state, shardID, hlookup, hmem, hchanged, rfl | hprevious⟩
    · exact .inl ⟨shardID, ⟨state, hlookup, hmem⟩, hchanged⟩
    · refine .inr ⟨shardID, newOwnerID, ?_, ⟨state, hlookup, hmem⟩, hprevious⟩
      rintro rfl
      exact hchanged hprevious
  · rintro (⟨shardID, ⟨state, hlookup, hmem⟩, hchanged⟩ | ⟨shardID, other, hne, ⟨state, hlookup, hmem⟩, hprevious⟩)
    · exact ⟨executorID, state, shardID, hlookup, hmem, hchanged, .inl rfl⟩
    · refine ⟨other, state, shardID, hlookup, hmem, ?_, .inr hprevious⟩
      rw [hprevious, ne_eq, Option.some.injEq]
      exact hne.symm

variable [Float64 F]

theorem carries_movedStatistics (previousOwnersByShard : Map String String)
    (previousStatistics : Map String (ShardStatistics F)) (now : Time) (executorID shardID : String) :
    Carries (previousOwnersByShard.lookup shardID) (previousStatistics.lookup shardID) now executorID
      (movedStatistics previousOwnersByShard previousStatistics now executorID shardID) where
  moved := by
    intro owner old howner hne hold
    rw [movedStatistics, howner, hold]
    dsimp only
    rw [if_neg fun h => hne (Option.some.inj h)]
    exact ⟨rfl, rfl, rfl⟩
  same := by
    intro howner
    rw [movedStatistics, if_pos howner]
  unowned := by
    intro howner
    rw [movedStatistics, howner]
    rfl

theorem updates_prepareAssignmentStatistics (order : RangeOrder) (previousOwnersByShard : Map String String)
    (newAssignments : Map String AssignedState) (previousStatistics : Map String (ShardStatistics F)) (now : Time) :
    Updates previousOwnersByShard newAssignments previousStatistics now
      (prepareAssignmentStatistics order previousOwnersByShard newAssignments previousStatistics now) := by
  have hids : (prepareAssignmentStatistics order previousOwnersByShard newAssignments previousStatistics now).map
      ExecutorShardStatistics.executorID = order.rangeKeys "buildStatisticsUpdates"
        (findAffectedExecutors previousOwnersByShard newAssignments) := by
    rw [prepareAssignmentStatistics, buildStatisticsUpdates, List.map_map]
    exact List.map_id _
  refine ⟨?_, fun executorID => ?_, fun update hupdate shardID => ?_, fun update hupdate shardID statistic h => ?_⟩
  · rw [hids]
    exact order.nodup_rangeKeys _ _
  · rw [hids, RangeOrder.mem_rangeKeys, mem_findAffectedExecutors_iff]
  · rw [Map.mem_iff_exists_lookup, (mem_buildStatisticsUpdates hupdate).2, Given]
    cases newAssignments.lookup update.executorID with
    | none =>
      have hempty : (default : AssignedState).assignedShards.lookup shardID = none := rfl
      simp [hempty]
    | some state => simp [Map.mem_iff_exists_lookup]
  · rw [(mem_buildStatisticsUpdates hupdate).2] at h
    obtain ⟨_, -, rfl⟩ := Option.map_eq_some_iff.mp h
    exact carries_movedStatistics _ _ _ _ _

end Updates

end greedy

namespace executorstore

open etcdtypes (Value)

variable {F : Type} [Float64 F] [DecidableEq F]

/-- The errors of the updates, which the batch joins; it returns nil if there
are none. -/
def recordShardStatisticsBatchErrors (pre ns : String) : List (ExecutorShardStatistics F) → (String → Fate) →
    Store (Value F) → List StoreError
  | [], _, _ => []
  | update :: updates, fates, s =>
    match recordShardStatisticsUpdate pre ns update.executorID update.statistics (fates update.executorID) s with
    | (.error e, s') => e :: recordShardStatisticsBatchErrors pre ns updates fates s'
    | (.ok (), s') => recordShardStatisticsBatchErrors pre ns updates fates s'

variable {pre ns : String}

theorem statisticsAt_recordShardStatisticsUpdate {executorID : String} {statistics : Map String (ShardStatistics F)}
    {fate : Fate} {s s' : Store (Value F)}
    (h : recordShardStatisticsUpdate pre ns executorID statistics fate s = (.ok (), s')) (shardID : String) :
    (statisticsAt pre ns s' executorID).lookup shardID = statistics.lookup shardID := by
  rcases recordShardStatisticsUpdate_cases h with ⟨-, e, hfailed⟩ | ⟨hnil, happlied⟩ | ⟨-, happlied⟩
  · cases hfailed
  · have hgone := happlied.get_of_deleted (List.mem_singleton_self _) (decide_eq_true rfl)
    have hnone : statistics.lookup shardID = none := by
      refine Option.eq_none_iff_forall_ne_some.mpr fun statistic hlookup => ?_
      have hentry := Map.mem_toList_iff.mpr hlookup
      rw [hnil] at hentry
      cases hentry
    rw [statisticsKey] at hgone
    rw [hnone, statisticsAt, hgone]
    rfl
  · exact lookup_statisticsAt_of_put (happlied.get_of_put (List.mem_singleton_self _)) shardID

/-- A batch that returns nil has stored all its updates. -/
theorem statisticsAt_recordShardStatisticsBatch {updates : List (ExecutorShardStatistics F)}
    (honce : (updates.map ExecutorShardStatistics.executorID).Nodup) {fates : String → Fate} {s : Store (Value F)}
    (h : recordShardStatisticsBatchErrors pre ns updates fates s = []) {update : ExecutorShardStatistics F}
    (hmem : update ∈ updates) (shardID : String) :
    (statisticsAt pre ns (recordShardStatisticsBatch pre ns updates fates s) update.executorID).lookup shardID =
      update.statistics.lookup shardID := by
  induction updates generalizing s with
  | nil => cases hmem
  | cons first rest ih =>
    rw [List.map_cons, List.nodup_cons] at honce
    rw [recordShardStatisticsBatchErrors] at h
    rcases hcall : recordShardStatisticsUpdate pre ns first.executorID first.statistics (fates first.executorID) s
      with ⟨result, next⟩
    rw [hcall] at h
    have hbatch : recordShardStatisticsBatch pre ns (first :: rest) fates s =
        recordShardStatisticsBatch pre ns rest fates next := by
      rw [recordShardStatisticsBatch, List.foldl_cons, hcall, recordShardStatisticsBatch]
    rw [hbatch]
    cases result with
    | error e => cases h
    | ok _ =>
      rcases List.mem_cons.mp hmem with rfl | hrest
      · -- The others are about other executors.
        rw [statisticsAt_of_get_eq, statisticsAt_recordShardStatisticsUpdate hcall]
        rcases leader.get_recordShardStatisticsBatch rest fates next (statisticsKey pre ns update.executorID) with
          hsame | ⟨later, hlater, hkey, -⟩
        · exact hsame
        · obtain ⟨hid, -⟩ := buildExecutorKey_inj (by trivial) (by trivial) hkey
          exact absurd (hid ▸ List.mem_map_of_mem hlater) honce.1
      · exact ih honce.2 h hrest

end executorstore

namespace greedy

open etcdtypes (Value)

variable {F : Type} [Float64 F] [DecidableEq F]

/-- The load history follows the shards: the updates are complete maps for the
executors whose shards changed, and once stored they leave a moved shard under
its new owner only. -/
theorem prepareAssignmentStatistics_moves (order : RangeOrder) (previousOwnersByShard : Map String String)
    (newAssignments : Map String AssignedState) (previousStatistics : Map String (ShardStatistics F)) (now : Time)
    (hunique : ∀ executorID executorID' shardID, Given newAssignments executorID shardID →
      Given newAssignments executorID' shardID → executorID = executorID') :
    let updates := prepareAssignmentStatistics order previousOwnersByShard newAssignments previousStatistics now
    Updates previousOwnersByShard newAssignments previousStatistics now updates ∧
      ∀ (pre ns : String) (fates : String → Fate) (s : Store (Value F)),
        recordShardStatisticsBatchErrors pre ns updates fates s = [] →
        ∀ shardID owner previous : String, previousOwnersByShard.lookup shardID = some previous → previous ≠ owner →
          Given newAssignments owner shardID →
          shardID ∈ statisticsAt pre ns (recordShardStatisticsBatch pre ns updates fates s) owner ∧
            ∀ other ∈ updates.map ExecutorShardStatistics.executorID, other ≠ owner →
              shardID ∉ statisticsAt pre ns (recordShardStatisticsBatch pre ns updates fates s) other := by
  intro updates
  have hupdates := updates_prepareAssignmentStatistics order previousOwnersByShard newAssignments previousStatistics now
  refine ⟨hupdates, fun pre ns fates s herrors shardID owner previous hprevious hne hgiven => ?_⟩
  have hstored : ∀ executorID ∈ updates.map ExecutorShardStatistics.executorID,
      (shardID ∈ statisticsAt pre ns (recordShardStatisticsBatch pre ns updates fates s) executorID ↔
        Given newAssignments executorID shardID) := by
    intro executorID hmem
    obtain ⟨update, hupdate, rfl⟩ := List.mem_map.mp hmem
    rw [← hupdates.covers update hupdate, Map.mem_iff_exists_lookup, Map.mem_iff_exists_lookup,
      statisticsAt_recordShardStatisticsBatch hupdates.once herrors hupdate]
  have hgains : Gains previousOwnersByShard newAssignments owner := by
    refine ⟨shardID, hgiven, ?_⟩
    rw [hprevious, ne_eq, Option.some.injEq]
    exact hne
  refine ⟨(hstored owner ((hupdates.affected owner).mpr (.inl hgains))).mpr hgiven, fun other hother hnot hmem => ?_⟩
  exact hnot (hunique other owner shardID ((hstored other hother).mp hmem) hgiven)

/-- Shard 1 goes from a to b, which loses shard 3 to c; 4 is new. -/
def movedOwners : Map String String := Map.ofList [("1", "a"), ("2", "a"), ("3", "b")]

def movedAssignments : Map String AssignedState :=
  Map.ofList [("a", ⟨Map.ofList [("2", none)], ∅, 0, 1⟩), ("b", ⟨Map.ofList [("1", none), ("4", none)], ∅, 0, 1⟩),
    ("c", ⟨Map.ofList [("3", none)], ∅, 0, 1⟩)]

def movedUpdates : List (ExecutorShardStatistics ℚ) :=
  prepareAssignmentStatistics .stored movedOwners movedAssignments (Map.ofList [("1", ⟨5, 2, 0⟩)]) 9

theorem movedUpdates_moves :
    (∀ executorID executorID' shardID, Given movedAssignments executorID shardID →
      Given movedAssignments executorID' shardID → executorID = executorID') ∧
    recordShardStatisticsBatchErrors "p" "n" movedUpdates (fun _ => .delivered) .empty = [] ∧
    "1" ∈ statisticsAt "p" "n" (recordShardStatisticsBatch "p" "n" movedUpdates (fun _ => .delivered) .empty) "b" ∧
    "1" ∉ statisticsAt "p" "n" (recordShardStatisticsBatch "p" "n" movedUpdates (fun _ => .delivered) .empty) "a" := by
  have hunique : ∀ executorID executorID' shardID, Given movedAssignments executorID shardID →
      Given movedAssignments executorID' shardID → executorID = executorID' := by
    have hgiven : ∀ {executorID shardID}, Given movedAssignments executorID shardID →
        executorID = if shardID = "2" then "a" else if shardID = "3" then "c" else "b" := by
      rintro executorID shardID ⟨state, hlookup, hmem⟩
      have hentry := Map.mem_of_lookup_ofList hlookup
      simp only [List.mem_cons, Prod.mk.injEq, List.not_mem_nil, or_false] at hentry
      rcases hentry with ⟨rfl, rfl⟩ | ⟨rfl, rfl⟩ | ⟨rfl, rfl⟩
      all_goals
        rw [Map.mem_ofList] at hmem
        simp only [List.map_cons, List.map_nil, List.mem_cons, List.not_mem_nil, or_false] at hmem
      · rw [hmem]; rfl
      · rcases hmem with rfl | rfl <;> rfl
      · rw [hmem]; rfl
    intro executorID executorID' shardID h h'
    rw [hgiven h, hgiven h']
  have herrors : recordShardStatisticsBatchErrors "p" "n" movedUpdates (fun _ => .delivered) .empty = [] := by
    decide +kernel
  have hmoves := (prepareAssignmentStatistics_moves .stored movedOwners movedAssignments
    (Map.ofList [("1", (⟨5, 2, 0⟩ : ShardStatistics ℚ))]) 9 hunique).2 "p" "n" (fun _ => .delivered) .empty herrors
  obtain ⟨howner, hothers⟩ := hmoves "1" "b" "a" rfl (by decide)
    ⟨_, rfl, by decide⟩
  exact ⟨hunique, herrors, howner, hothers "a" (by decide +kernel) (by decide)⟩

end greedy
