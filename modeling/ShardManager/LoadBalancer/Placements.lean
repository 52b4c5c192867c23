import Mathlib.Algebra.Order.BigOperators.Group.List
import Mathlib.Data.List.Induction
import ShardManager.Abstract.LeastLoaded
import ShardManager.Golang.Rational
import ShardManager.LoadBalancer.Dispatch

open golang golang.Float64 store balance

namespace plan

section Choice

variable {α R : Type} [Preorder R]

/-- The chosen element has the least value of any function that the comparison
respects. -/
theorem minFunc_le {less : α → α → Bool} (value : α → R) (hless : ∀ {a b}, less a b = true → value a ≤ value b)
    (hnot : ∀ {a b}, less a b = false → value b ≤ value a) {a x : α} {l : List α} (hx : x ∈ a :: l) :
    value (minFunc less a l) ≤ value x := by
  induction l generalizing a x with
  | nil =>
    rw [List.mem_singleton.mp hx]
    exact le_rfl
  | cons next rest ih =>
    rw [minFunc]
    have hfirst := ih (List.mem_cons_self (a := if less next a then next else a) (l := rest))
    have hbest : value (if less next a then next else a) ≤ value a ∧
        value (if less next a then next else a) ≤ value next := by
      cases h : less next a with
      | true => exact ⟨hless h, le_rfl⟩
      | false => exact ⟨le_rfl, hnot h⟩
    rcases List.mem_cons.mp hx with rfl | hx
    · exact hfirst.trans hbest.1
    · rcases List.mem_cons.mp hx with rfl | hx
      · exact hfirst.trans hbest.2
      · exact ih (List.mem_cons_of_mem _ hx)

end Choice

section PlaceEach

variable {M R : Type} [AddCommMonoid R] [PartialOrder R] [IsOrderedAddMonoid R]
  {choose : String → M → Except Failure (String × M)}

/-- What a strategy does with one shard: it fails without executors, else it
takes one of the least loaded and adds a weight to it. -/
structure Strategy (choose : String → M → Except Failure (String × M)) (knows : M → String → Prop)
    (load : M → String → R) (weight : R) : Prop where
  fails : ∀ {loads}, (∀ executorID, ¬knows loads executorID) → ∀ shardID,
    choose shardID loads = .error errNoActiveExecutors
  chooses : ∀ {loads}, (∃ executorID, knows loads executorID) → ∀ shardID, ∃ chosen loads',
    choose shardID loads = .ok (chosen, loads') ∧ knows loads chosen ∧
      (∀ executorID, knows loads executorID → load loads chosen ≤ load loads executorID) ∧
      (∀ executorID, knows loads' executorID ↔ knows loads executorID) ∧
      load loads' = Function.update (load loads) chosen (load loads chosen + weight)

variable {knows : M → String → Prop} {load : M → String → R} {weight : R}

omit [IsOrderedAddMonoid R] in
/-- Such a strategy places all shards, one after the other on a least loaded
executor. -/
theorem Strategy.exists_placements (h : Strategy choose knows load weight) {loads : M}
    (hknows : ∃ executorID, knows loads executorID) (shardIDs : List String) :
    ∃ placements, placeEach choose loads shardIDs = .ok placements ∧
      placements.map Placement.shardID = shardIDs ∧
      LeastLoaded (knows loads) weight (load loads) (placements.map Placement.executorID) := by
  induction shardIDs generalizing loads with
  | nil => exact ⟨[], rfl, rfl, trivial⟩
  | cons shardID rest ih =>
    obtain ⟨chosen, loads', hchoose, hchosen, hleast, hsame, hload⟩ := h.chooses hknows shardID
    have hknows' : knows loads' = knows loads := funext fun e => propext (hsame e)
    obtain ⟨placements, hplaced, hshards, hrun⟩ := ih ⟨chosen, (hsame chosen).mpr hchosen⟩
    refine ⟨⟨shardID, chosen⟩ :: placements, ?_, ?_, hchosen, hleast, ?_⟩
    · exact bind_eq_ok_iff.mpr ⟨_, hchoose, bind_eq_ok_iff.mpr ⟨_, hplaced, rfl⟩⟩
    · rw [List.map_cons, hshards]
    · rwa [hknows', hload] at hrun

omit [IsOrderedAddMonoid R] in
theorem Strategy.placeEach_error (h : Strategy choose knows load weight) {loads : M}
    (hknows : ∀ executorID, ¬knows loads executorID) {shardIDs : List String} (hne : shardIDs ≠ []) :
    placeEach choose loads shardIDs = .error errNoActiveExecutors := by
  obtain ⟨shardID, rest, rfl⟩ := List.exists_cons_of_ne_nil hne
  rw [placeEach, h.fails hknows shardID]
  rfl

/-- At the end nobody who received a shard is more than one weight above the
others. -/
theorem Strategy.level (h : Strategy choose knows load weight) (hweight : 0 ≤ weight) {loads : M}
    {shardIDs : List String} {placements : List Placement} (hplaced : placeEach choose loads shardIDs = .ok placements)
    {receiver other : String} (hreceiver : receiver ∈ placements.map Placement.executorID) (hother : knows loads other) :
    load loads receiver + (placements.map Placement.executorID).count receiver • weight ≤
      load loads other + (placements.map Placement.executorID).count other • weight + weight := by
  obtain ⟨placements', hplaced', -, hrun⟩ := h.exists_placements ⟨other, hother⟩ shardIDs
  rw [hplaced, Except.ok.injEq] at hplaced'
  subst hplaced'
  exact hrun.level hweight hreceiver hother

/-- There is something to place and nobody to place it on. -/
def Unplaceable {F : Type} (state : NamespaceState F) (shardIDs : List String) : Prop :=
  shardIDs ≠ [] ∧ ∀ executorID, ¬state.Assignable ∅ executorID

omit [IsOrderedAddMonoid R] in
theorem Strategy.decides {F : Type} {state : NamespaceState F} (h : Strategy choose knows load weight) {loads : M}
    (hknows : ∀ executorID, knows loads executorID ↔ state.Assignable ∅ executorID) (shardIDs : List String) :
    (Unplaceable state shardIDs → placeEach choose loads shardIDs = .error errNoActiveExecutors) ∧
      (¬Unplaceable state shardIDs → ∃ placements, placeEach choose loads shardIDs = .ok placements) := by
  refine ⟨fun hnot => ?_, fun hplaceable => ?_⟩
  · exact h.placeEach_error (fun executorID hknown => hnot.2 executorID ((hknows executorID).mp hknown)) hnot.1
  · by_cases hnil : shardIDs = []
    · exact ⟨[], by rw [hnil, placeEach]⟩
    · have hsome : ∃ executorID, knows loads executorID := by
        by_contra hnone
        refine hplaceable ⟨hnil, fun executorID hassignable => hnone ⟨executorID, ?_⟩⟩
        exact (hknows executorID).mpr hassignable
      obtain ⟨placements, hplaced, -⟩ := h.exists_placements hsome shardIDs
      exact ⟨placements, hplaced⟩

/-- Nobody who received a shard is more than a weight above an assignable
executor. -/
def Level {F R : Type} [Add R] [LE R] (state : NamespaceState F) (placements : List Placement)
    (load : String → R) (weight : R) : Prop :=
  ∀ p ∈ placements, ∀ executorID, state.Assignable ∅ executorID → load p.executorID ≤ load executorID + weight

/-- The common shape of the strategies: the executor that is least in some
comparison gets a new entry. -/
def chooseLeast {β : Type} (order : RangeOrder) (less : Map String β → String → String → Bool)
    (grown : Map String β → String → β) (shardID : String) (loads : Map String β) :
    Except Failure (String × Map String β) :=
  match (order.within shardID).rangeKeys "chooseExecutor" loads with
  | [] => .error errNoActiveExecutors
  | first :: rest =>
    let chosen := minFunc (less loads) first rest
    .ok (chosen, loads.insert chosen (grown loads chosen))

omit [IsOrderedAddMonoid R] in
theorem strategy_chooseLeast {β : Type} (order : RangeOrder) {less : Map String β → String → String → Bool}
    {grown : Map String β → String → β} {load : Map String β → String → R} {weight : R}
    (hless : ∀ {loads a b}, less loads a b = true → load loads a ≤ load loads b)
    (hnot : ∀ {loads a b}, less loads a b = false → load loads b ≤ load loads a)
    (hgrown : ∀ loads executorID, load (loads.insert executorID (grown loads executorID)) =
      Function.update (load loads) executorID (load loads executorID + weight)) :
    Strategy (chooseLeast order less grown) (fun loads executorID => executorID ∈ loads) load weight where
  fails := by
    intro loads hnone shardID
    unfold chooseLeast
    split
    · rfl
    · rename_i first rest hkeys
      have hfirst : first ∈ (order.within shardID).rangeKeys "chooseExecutor" loads := hkeys ▸ List.mem_cons_self
      exact absurd (RangeOrder.mem_rangeKeys.mp hfirst) (hnone first)
  chooses := by
    rintro loads ⟨executorID, hmem⟩ shardID
    unfold chooseLeast
    split
    · rename_i hnil
      have hkey : executorID ∈ (order.within shardID).rangeKeys "chooseExecutor" loads :=
        RangeOrder.mem_rangeKeys.mpr hmem
      rw [hnil] at hkey
      cases hkey
    · rename_i first rest hkeys
      have hchosen : minFunc (less loads) first rest ∈ loads := by
        have hmin := minFunc_mem (less loads) first rest
        rwa [← hkeys, RangeOrder.mem_rangeKeys] at hmin
      refine ⟨_, _, rfl, hchosen, fun e he => ?_, fun e => Map.mem_insert_iff_of_mem hchosen, hgrown _ _⟩
      have hkey : e ∈ (order.within shardID).rangeKeys "chooseExecutor" loads := RangeOrder.mem_rangeKeys.mpr he
      rw [hkeys] at hkey
      exact minFunc_le (load loads) hless hnot hkey

end PlaceEach

end plan

namespace naive

open plan

variable {F : Type}

/-- The stored shards of an executor and those placed on it. -/
def finalCount (state : NamespaceState F) (placements : List Placement) (executorID : String) : Nat :=
  (state.assigned executorID).assignedShards.keys.length + (placements.map Placement.executorID).count executorID

def countOf (counts : Map String Nat) (executorID : String) : Nat := (counts.lookup executorID).getD 0

theorem countOf_insert (counts : Map String Nat) (executorID : String) (count : Nat) :
    countOf (counts.insert executorID count) = Function.update (countOf counts) executorID count := by
  funext other
  rw [countOf, Map.lookup_insert_eq]
  by_cases h : other = executorID
  · rw [if_pos h, h, Function.update_self]
    rfl
  · rw [if_neg h, Function.update_of_ne h]
    rfl

def fewer (counts : Map String Nat) (a b : String) : Bool :=
  decide (countOf counts a < countOf counts b ∨ countOf counts a = countOf counts b ∧ a < b)

theorem strategy (order : RangeOrder) :
    Strategy (fun shardID => chooseExecutorAndUpdateCounts (order.within shardID))
      (fun counts executorID => executorID ∈ counts) countOf 1 := by
  have hleast : Strategy (chooseLeast order fewer fun counts executorID => countOf counts executorID + 1)
      (fun counts executorID => executorID ∈ counts) countOf 1 := by
    refine strategy_chooseLeast order ?_ ?_ fun counts executorID => countOf_insert counts executorID _
    · intro counts a b h
      rcases of_decide_eq_true h with hlt | ⟨heq, -⟩
      · exact hlt.le
      · exact heq.le
    · intro counts a b h
      have hnot := (not_or.mp (of_decide_eq_false h)).1
      exact not_lt.mp hnot
  exact hleast

theorem countOf_assignmentCounts {state : NamespaceState F} {executorID : String}
    (h : state.Assignable ∅ executorID) :
    countOf (assignmentCounts state) executorID = (state.assigned executorID).assignedShards.keys.length := by
  have hmem := List.mem_map_of_mem (f := fun e => (e, (state.assigned e).assignedShards.keys.length))
    (NamespaceState.mem_assignableExecutorIDs.mpr h)
  have hlookup : (assignmentCounts state).lookup executorID =
      some (state.assigned executorID).assignedShards.keys.length := by
    refine (Map.lookup_ofList_iff_of_unique fun {b b'} hb hb' => ?_).mpr hmem
    simp only [List.mem_map, Prod.mk.injEq] at hb hb'
    obtain ⟨_, -, rfl, rfl⟩ := hb
    obtain ⟨_, -, rfl, rfl⟩ := hb'
    rfl
  rw [countOf, hlookup]
  rfl

theorem planInitialPlacement_level {order : RangeOrder} {state : NamespaceState F} {shardIDs : List String}
    {placements : List Placement} (h : planInitialPlacement order state shardIDs = .ok placements) :
    Level state placements (finalCount state placements) 1 := by
  intro p hp executorID hassignable
  have hreceiver := (planInitialPlacement_ok h).2 p hp
  have hlevel := (strategy order).level (Nat.zero_le 1) h (List.mem_map_of_mem hp)
    (mem_assignmentCounts.mpr hassignable)
  rw [countOf_assignmentCounts hreceiver, countOf_assignmentCounts hassignable, nsmul_one, nsmul_one] at hlevel
  exact hlevel

end naive

namespace greedy

open plan

section Choice

variable {F : Type} [Float64 F]

def entryOf (loads : Map String (ExecutorLoad F)) (executorID : String) : ExecutorLoad F :=
  (loads.lookup executorID).getD ⟨0, zero⟩

def lighter (loads : Map String (ExecutorLoad F)) (a b : String) : Bool :=
  match compare (entryOf loads a).smoothedLoad (entryOf loads b).smoothedLoad with
  | .lt => true
  | .gt => false
  | .eq => decide ((entryOf loads a).shardCount < (entryOf loads b).shardCount ∨
      (entryOf loads a).shardCount = (entryOf loads b).shardCount ∧ a < b)

def heavier (averageShardLoad : F) (loads : Map String (ExecutorLoad F)) (executorID : String) : ExecutorLoad F :=
  ⟨(entryOf loads executorID).shardCount + 1, add (entryOf loads executorID).smoothedLoad averageShardLoad⟩

theorem chooseLeast_lighter (order : RangeOrder) (averageShardLoad : F) :
    chooseLeast order lighter (heavier averageShardLoad) =
      fun shardID => chooseExecutorAndUpdateLoads (order.within shardID) averageShardLoad :=
  rfl

/-- Whatever the arithmetic, shards end up on known executors. -/
theorem strategy_of_float (order : RangeOrder) (averageShardLoad : F) :
    Strategy (fun shardID => chooseExecutorAndUpdateLoads (order.within shardID) averageShardLoad)
      (fun loads executorID => executorID ∈ loads) (fun _ _ => 0) 0 := by
  rw [← chooseLeast_lighter]
  exact strategy_chooseLeast order (fun _ => le_rfl) (fun _ => le_rfl) fun _ _ => by simp

end Choice

section Exact

theorem lighter_le {loads : Map String (ExecutorLoad ℚ)} {a b : String} (h : lighter loads a b = true) :
    (entryOf loads a).smoothedLoad ≤ (entryOf loads b).smoothedLoad := by
  unfold lighter at h
  rw [compare_rat] at h
  split at h
  · rename_i hlt
    exact ((cmp_eq_lt_iff _ _).mp hlt).le
  · cases h
  · rename_i heq
    exact ((cmp_eq_eq_iff _ _).mp heq).le

theorem not_lighter_le {loads : Map String (ExecutorLoad ℚ)} {a b : String} (h : lighter loads a b = false) :
    (entryOf loads b).smoothedLoad ≤ (entryOf loads a).smoothedLoad := by
  unfold lighter at h
  rw [compare_rat] at h
  split at h
  · cases h
  · rename_i hgt
    exact ((cmp_eq_gt_iff _ _).mp hgt).le
  · rename_i heq
    exact ((cmp_eq_eq_iff _ _).mp heq).ge

theorem smoothedLoad_insert (loads : Map String (ExecutorLoad ℚ)) (executorID : String) (entry : ExecutorLoad ℚ) :
    (fun other => (entryOf (loads.insert executorID entry) other).smoothedLoad) =
      Function.update (fun other => (entryOf loads other).smoothedLoad) executorID entry.smoothedLoad := by
  funext other
  rw [entryOf, Map.lookup_insert_eq]
  by_cases h : other = executorID
  · rw [if_pos h, h, Function.update_self]
    rfl
  · rw [if_neg h, Function.update_of_ne h]
    rfl

theorem strategy_exact (order : RangeOrder) (averageShardLoad : ℚ) :
    Strategy (fun shardID => chooseExecutorAndUpdateLoads (order.within shardID) averageShardLoad)
      (fun loads executorID => executorID ∈ loads)
      (fun loads executorID => (entryOf loads executorID).smoothedLoad) averageShardLoad := by
  rw [← chooseLeast_lighter]
  exact strategy_chooseLeast order lighter_le not_lighter_le fun loads executorID =>
    smoothedLoad_insert loads executorID _

/-- The measured loads of the shards of assignable executors. -/
def measuredLoads (state : NamespaceState ℚ) : List ℚ :=
  (state.assignableExecutorIDs ∅).flatMap fun executorID =>
    (state.assigned executorID).assignedShards.keys.filterMap (measuredShardLoad state.shardStats)

def averageLoad (state : NamespaceState ℚ) : ℚ := (measuredLoads state).sum / (measuredLoads state).length

/-- The effective load of the stored shards of an executor, and the average for
each shard placed on it. -/
def finalLoad (state : NamespaceState ℚ) (placements : List Placement) (executorID : String) : ℚ :=
  ((state.assigned executorID).assignedShards.keys.map (effectiveShardLoad state.shardStats (averageLoad state))).sum +
    (placements.map Placement.executorID).count executorID * averageLoad state

theorem range_activeExecutorAssignments_perm (order : RangeOrder) (loop : String) (state : NamespaceState ℚ) :
    (order.range loop (activeExecutorAssignments order state)).Perm
      ((state.assignableExecutorIDs ∅).map fun executorID =>
        (executorID, order.rangeKeys s!"activeExecutorAssignments/{executorID}"
          (state.assigned executorID).assignedShards)) := by
  refine (order.range_perm loop _).trans (Map.toList_ofList_perm ?_)
  rw [List.map_map]
  exact (List.map_id _).symm ▸ state.nodup_assignableExecutorIDs ∅

theorem executorLoads_average (order : RangeOrder) (state : NamespaceState ℚ) :
    (executorLoads order state).2 = averageLoad state := by
  have hperm : ((order.range "averageMeasuredShardLoad" (activeExecutorAssignments order state)).flatMap fun p =>
      p.2.filterMap (measuredShardLoad state.shardStats)).Perm (measuredLoads state) := by
    refine ((range_activeExecutorAssignments_perm order _ state).flatMap_right _).trans ?_
    rw [List.flatMap_map]
    exact List.Perm.flatMap (List.Perm.refl _) fun executorID _ => (order.rangeKeys_perm _ _).filterMap _
  have hsum : ∀ l : List ℚ, l.foldl add zero = l.sum := fun l => (foldl_add_rat id l).trans (by rw [List.map_id])
  rw [executorLoads, averageMeasuredShardLoad, averageLoad]
  dsimp only
  rw [hsum, hperm.sum_eq, hperm.length_eq]
  by_cases hnone : (measuredLoads state).length = 0
  · rw [if_pos hnone, hnone, Nat.cast_zero, div_zero, zero_rat]
  · rw [if_neg hnone]
    rfl

theorem entryOf_executorLoads {order : RangeOrder} {state : NamespaceState ℚ} {executorID : String}
    (h : state.Assignable ∅ executorID) :
    (entryOf (executorLoads order state).1 executorID).smoothedLoad =
      ((state.assigned executorID).assignedShards.keys.map
        (effectiveShardLoad state.shardStats (averageLoad state))).sum := by
  have hactive := (range_activeExecutorAssignments_perm order "executorLoads" state).mem_iff.mpr
    (List.mem_map_of_mem (NamespaceState.mem_assignableExecutorIDs.mpr h))
  have hlookup := (Map.lookup_ofList_iff ?_).mpr (List.mem_map_of_mem
    (f := fun p : String × List String => (p.1, ({
      shardCount := p.2.length
      smoothedLoad := p.2.foldl (fun sum shardID =>
        add sum (effectiveShardLoad state.shardStats (executorLoads order state).2 shardID)) zero } : ExecutorLoad ℚ)))
    hactive)
  · have hentry := congrArg (fun found => (found.getD ⟨0, zero⟩).smoothedLoad) hlookup
    refine hentry.trans ?_
    rw [executorLoads_average, Option.getD_some, foldl_add_rat]
    exact ((order.rangeKeys_perm _ _).map _).sum_eq
  · rw [List.map_map]
    exact order.nodup_rangeKeys "executorLoads" _

theorem measuredShardLoad_eq_some_iff {shardStats : Map String (ShardStatistics ℚ)} {shardID : String} {load : ℚ} :
    measuredShardLoad shardStats shardID = some load ↔
      ∃ stats, shardStats.lookup shardID = some stats ∧ hasSmoothedLoadUpdate stats = true ∧ stats.smoothedLoad = load := by
  unfold measuredShardLoad
  cases shardStats.lookup shardID with
  | none => simp
  | some stats => simp

theorem averageLoad_nonneg {state : NamespaceState ℚ}
    (h : ∀ shardID load, measuredShardLoad state.shardStats shardID = some load → 0 ≤ load) : 0 ≤ averageLoad state := by
  refine div_nonneg (List.sum_nonneg fun load hload => ?_) (Nat.cast_nonneg _)
  obtain ⟨executorID, -, hload⟩ := List.mem_flatMap.mp hload
  obtain ⟨shardID, -, hmeasured⟩ := List.mem_filterMap.mp hload
  exact h shardID load hmeasured

theorem planInitialPlacement_level {order : RangeOrder} {state : NamespaceState ℚ} {shardIDs : List String}
    {placements : List Placement}
    (hmeasured : ∀ shardID load, measuredShardLoad state.shardStats shardID = some load → 0 ≤ load)
    (h : planInitialPlacement order state shardIDs = .ok placements) :
    Level state placements (finalLoad state placements) (averageLoad state) := by
  intro p hp executorID hassignable
  have hreceiver := (planInitialPlacement_ok h).2 p hp
  have hplaced : placeEach (fun shardID => chooseExecutorAndUpdateLoads (order.within shardID) (averageLoad state))
      (executorLoads order state).1 shardIDs = .ok placements := by
    rw [← executorLoads_average order state]
    exact h
  have hlevel := (strategy_exact order _).level (averageLoad_nonneg hmeasured) hplaced (List.mem_map_of_mem hp)
    (mem_executorLoads.mpr hassignable)
  rw [entryOf_executorLoads hreceiver, entryOf_executorLoads hassignable, nsmul_eq_mul, nsmul_eq_mul] at hlevel
  exact hlevel

end Exact

end greedy

namespace loadbalancer

open plan

variable {F : Type}

theorem dedupeShardIDs_eq (shardIDs : List String) : dedupeShardIDs shardIDs = shardIDs.eraseDups := by
  induction shardIDs using List.reverseRecOn with
  | nil => rfl
  | append_singleton before shardID ih =>
    have hstep : dedupeShardIDs (before ++ [shardID]) =
        if shardID ∈ dedupeShardIDs before then dedupeShardIDs before else dedupeShardIDs before ++ [shardID] := by
      rw [dedupeShardIDs, List.foldl_append, List.foldl_cons, List.foldl_nil]
      rfl
    rw [hstep, ih, List.eraseDups_append]
    by_cases hseen : shardID ∈ before
    · simp [hseen, List.removeAll]
    · simp [hseen, List.removeAll, List.eraseDups_cons]

theorem dedupeShardIDs_ne_nil {shardIDs : List String} : dedupeShardIDs shardIDs ≠ [] ↔ shardIDs ≠ [] := by
  simp only [ne_eq, List.eq_nil_iff_forall_not_mem, (dedupeShardIDs_spec shardIDs).2]

theorem planInitialPlacement_decides [Float64 F] (order : RangeOrder) {cfg : Config F} (hmode : cfg.mode ≠ .invalid)
    (state : NamespaceState F) (shardIDs : List String) :
    (Unplaceable state shardIDs → planInitialPlacement order cfg state shardIDs = .error errNoActiveExecutors) ∧
      (¬Unplaceable state shardIDs → ∃ placements, planInitialPlacement order cfg state shardIDs = .ok placements) := by
  have hsame : Unplaceable state (dedupeShardIDs shardIDs) ↔ Unplaceable state shardIDs :=
    and_congr_left fun _ => dedupeShardIDs_ne_nil
  rw [← hsame]
  unfold planInitialPlacement
  cases hcfg : cfg.mode with
  | naive => exact (naive.strategy order).decides (fun _ => naive.mem_assignmentCounts) _
  | greedy => exact (greedy.strategy_of_float order _).decides (fun _ => greedy.mem_executorLoads) _
  | invalid => exact absurd hcfg hmode

/-- The whole plan: who gets shards, when there is no plan, and how even it is. -/
theorem planInitialPlacement_balanced (order : RangeOrder) (shardIDs : List String) :
    (∀ (F : Type) [Float64 F] (cfg : Config F) (state : NamespaceState F), cfg.mode ≠ .invalid →
      (Unplaceable state shardIDs → planInitialPlacement order cfg state shardIDs = .error errNoActiveExecutors) ∧
      (¬Unplaceable state shardIDs → ∃ placements, planInitialPlacement order cfg state shardIDs = .ok placements ∧
        placements.map Placement.shardID = shardIDs.eraseDups ∧
        (∀ p ∈ placements, state.Assignable ∅ p.executorID) ∧
        (cfg.mode = .naive → Level state placements (naive.finalCount state placements) 1))) ∧
    ∀ (cfg : Config ℚ) (state : NamespaceState ℚ) (placements : List Placement), cfg.mode = .greedy →
      (∀ shardID load, greedy.measuredShardLoad state.shardStats shardID = some load → 0 ≤ load) →
      planInitialPlacement order cfg state shardIDs = .ok placements →
      Level state placements (greedy.finalLoad state placements) (greedy.averageLoad state) := by
  refine ⟨fun F _ cfg state hmode => ?_, fun cfg state placements hmode hmeasured hplan => ?_⟩
  · obtain ⟨hfails, hplaces⟩ := planInitialPlacement_decides order hmode state shardIDs
    refine ⟨hfails, fun hplaceable => ?_⟩
    obtain ⟨placements, hplan⟩ := hplaces hplaceable
    obtain ⟨hshards, hassignable⟩ := planInitialPlacement_placed hplan
    refine ⟨placements, hplan, hshards.trans (dedupeShardIDs_eq shardIDs), hassignable, fun hnaive => ?_⟩
    rw [planInitialPlacement, hnaive] at hplan
    exact naive.planInitialPlacement_level hplan
  · rw [planInitialPlacement, hmode] at hplan
    exact greedy.planInitialPlacement_level hmeasured hplan

/-- Two executors, one with a measured and an unmeasured shard. -/
def twoExecutors : NamespaceState ℚ :=
  { NamespaceState.ofStored [("a", ⟨1, .active, ∅, ∅, none⟩), ("b", ⟨1, .active, ∅, ∅, none⟩)]
      [("a", ["1", "2"])] with
    shardStats := Map.ofList [("1", ⟨3, 1, 0⟩)] }

def twoExecutorsConfig (mode : Mode) : Config ℚ := ⟨mode, 2, ⟨0, 1, 1, 1, 1⟩⟩

theorem twoExecutors_balanced :
    planInitialPlacement .stored (twoExecutorsConfig .naive) twoExecutors ["3", "4", "3"] =
      .ok [⟨"3", "b"⟩, ⟨"4", "b"⟩] ∧
    Level twoExecutors [⟨"3", "b"⟩, ⟨"4", "b"⟩] (naive.finalCount twoExecutors [⟨"3", "b"⟩, ⟨"4", "b"⟩]) 1 ∧
    planInitialPlacement .stored (twoExecutorsConfig .greedy) twoExecutors ["3", "4", "3"] =
      .ok [⟨"3", "b"⟩, ⟨"4", "b"⟩] ∧
    Level twoExecutors [⟨"3", "b"⟩, ⟨"4", "b"⟩] (greedy.finalLoad twoExecutors [⟨"3", "b"⟩, ⟨"4", "b"⟩])
      (greedy.averageLoad twoExecutors) := by
  have hnaive : planInitialPlacement .stored (twoExecutorsConfig .naive) twoExecutors ["3", "4", "3"] =
      .ok [⟨"3", "b"⟩, ⟨"4", "b"⟩] := by decide +kernel
  have hgreedy : planInitialPlacement .stored (twoExecutorsConfig .greedy) twoExecutors ["3", "4", "3"] =
      .ok [⟨"3", "b"⟩, ⟨"4", "b"⟩] := by decide +kernel
  obtain ⟨hplaces, hlevel⟩ := planInitialPlacement_balanced .stored ["3", "4", "3"]
  refine ⟨hnaive, ?_, hgreedy, hlevel _ _ _ rfl ?_ hgreedy⟩
  · have hplaceable : ¬Unplaceable twoExecutors ["3", "4", "3"] := fun hnone =>
      hnone.2 "b" ⟨⟨"b", ⟨1, .active, ∅, ∅, none⟩, false⟩, rfl, rfl⟩
    obtain ⟨placements, hplan, -, -, heven⟩ := (hplaces ℚ (twoExecutorsConfig .naive) twoExecutors
      (by decide)).2 hplaceable
    rw [hnaive] at hplan
    cases hplan
    exact heven rfl
  · intro shardID load hload
    obtain ⟨stats, hlookup, hmeasured⟩ := greedy.measuredShardLoad_eq_some_iff.mp hload
    obtain ⟨-, rfl⟩ := Prod.mk.inj (List.mem_singleton.mp (Map.mem_of_lookup_ofList hlookup))
    rw [← hmeasured.2]
    exact zero_le_three

end loadbalancer
