import ShardManager.Golang.Float64
import ShardManager.Golang.ListMap
import ShardManager.State

open golang golang.Float64 store

namespace plan

structure Placement where
  shardID : String
  executorID : String
deriving DecidableEq, Repr

structure Move where
  shardID : String
  fromID : String
  toID : String
deriving DecidableEq, Repr

def errNoActiveExecutors : Failure := .error "no active executors available"

/-- `slices.MinFunc`: the first element that no later one is less than. -/
def minFunc {α : Type} (less : α → α → Bool) : α → List α → α
  | chosen, [] => chosen
  | chosen, x :: rest => minFunc less (if less x chosen then x else chosen) rest

theorem minFunc_mem {α : Type} (less : α → α → Bool) (a : α) (l : List α) :
    minFunc less a l ∈ a :: l := by
  induction l generalizing a with
  | nil => simp [minFunc]
  | cons x rest ih =>
    have hmem := ih (if less x a then x else a)
    rw [minFunc]
    rcases List.mem_cons.mp hmem with heq | hrest
    · rw [heq]
      split <;> simp
    · exact List.mem_cons_of_mem _ (List.mem_cons_of_mem _ hrest)

/-- Places shards one by one, each on the executor chosen from what the
earlier placements left. -/
def placeEach {M : Type} (choose : String → M → Except Failure (String × M)) :
    M → List String → Except Failure (List Placement)
  | _, [] => .ok []
  | loads, shardID :: rest => do
    let (executorID, loads) ← choose shardID loads
    let placements ← placeEach choose loads rest
    .ok (⟨shardID, executorID⟩ :: placements)

/-- Every shard is placed once, in order, and on a known executor. -/
theorem placeEach_ok {M : Type} {choose : String → M → Except Failure (String × M)}
    (knows : M → String → Prop)
    (hchoose : ∀ {shardID loads chosen loads'}, choose shardID loads = .ok (chosen, loads') →
      knows loads chosen ∧ ∀ e, knows loads' e ↔ knows loads e)
    {loads : M} {shardIDs : List String} {placements : List Placement}
    (h : placeEach choose loads shardIDs = .ok placements) :
    placements.map Placement.shardID = shardIDs ∧ ∀ p ∈ placements, knows loads p.executorID := by
  induction shardIDs generalizing loads placements with
  | nil =>
    cases h
    simp
  | cons shardID rest ih =>
    obtain ⟨⟨chosen, loads'⟩, hnext, h⟩ := bind_eq_ok_iff.mp h
    obtain ⟨tail, htail, h⟩ := bind_eq_ok_iff.mp h
    cases h
    obtain ⟨hknown, hsame⟩ := hchoose hnext
    obtain ⟨hshards, hmem⟩ := ih htail
    refine ⟨by simp [hshards], ?_⟩
    intro p hp
    rcases List.mem_cons.mp hp with rfl | hp
    · exact hknown
    · exact (hsame _).mp (hmem p hp)

end plan

namespace naive

open plan

variable {F : Type}

section Placement

def assignmentCounts (state : NamespaceState F) : Map String Nat :=
  Map.ofList ((state.assignableExecutorIDs ∅).map fun executorID =>
    (executorID, (state.assigned executorID).assignedShards.keys.length))

def chooseExecutorAndUpdateCounts (order : RangeOrder) (counts : Map String Nat) :
    Except Failure (String × Map String Nat) :=
  match order.rangeKeys "chooseExecutor" counts with
  | [] => .error errNoActiveExecutors
  | first :: rest =>
    let count executorID := (counts.lookup executorID).getD 0
    let less a b := decide (count a < count b ∨ count a = count b ∧ a < b)
    let chosen := minFunc less first rest
    .ok (chosen, counts.insert chosen (count chosen + 1))

def planInitialPlacement (order : RangeOrder) (state : NamespaceState F) (shardIDs : List String) :
    Except Failure (List Placement) :=
  placeEach (fun shardID => chooseExecutorAndUpdateCounts (order.within shardID))
    (assignmentCounts state) shardIDs

end Placement

variable [Float64 F]

/-- The latest reported load of every shard; an unreported shard weighs nothing. -/
def calcShardLoad (order : RangeOrder) (state : NamespaceState F) : Map String F :=
  Map.ofList ((order.range "calcShardLoad" state.executors).flatMap fun (executorID, heartbeat) =>
    (order.range s!"calcShardLoad/{executorID}" heartbeat.reportedShards).filterMap
      fun (shardID, report) => report.map fun r => (shardID, r.shardLoad))

def loadOf (shardLoad : Map String F) (shardID : String) : F := (shardLoad.lookup shardID).getD zero

def executorLoad (shardLoad : Map String F) (shardIDs : List String) : F :=
  shardIDs.foldl (fun sum shardID => add sum (loadOf shardLoad shardID)) zero

def hotterShard (shardLoad : Map String F) (best : String × F) (shardID : String) : String × F :=
  if le best.2 (loadOf shardLoad shardID) then (shardID, loadOf shardLoad shardID) else best

/-- The last shard with the largest non-negative load and that load. A shard
found on an earlier executor is kept when there is none. -/
def hottestShard (shardLoad : Map String F) (before : String) (shardIDs : List String) : String × F :=
  shardIDs.foldl (hotterShard shardLoad) (before, zero)

/-- The variables of the scan over executors. -/
structure Extremes (F : Type) where
  hottestExecutorLoad : F
  hottestExecutorID : String
  hottestShardID : String
  hottestShardLoad : F
  coldestExecutorLoad : F
  coldestExecutorID : String

def Extremes.init : Extremes F := ⟨zero, "", "", zero, maxFloat64, ""⟩

def Extremes.visit (shardLoad : Map String F) (x : Extremes F) (executorID : String)
    (shardIDs : List String) : Extremes F :=
  let load := executorLoad shardLoad shardIDs
  let x := if le load x.coldestExecutorLoad then
    { x with coldestExecutorLoad := load, coldestExecutorID := executorID } else x
  if le x.hottestExecutorLoad load then
    let (hottest, maxShardLoad) := hottestShard shardLoad x.hottestShardID shardIDs
    { x with hottestExecutorLoad := load, hottestExecutorID := executorID,
             hottestShardID := hottest, hottestShardLoad := maxShardLoad }
  else x

def findExtremes (shardLoad : Map String F) (assignments : List (String × List String)) : Extremes F :=
  assignments.foldl (fun x (executorID, shardIDs) => x.visit shardLoad executorID shardIDs) .init

/-- At most one move, of the hottest shard of the hottest executor to the
coldest executor. -/
def planRebalance (order : RangeOrder) (maxDeviation : F) (state : NamespaceState F)
    (currentAssignments : ListMap String String) : List Move :=
  let shardLoad := calcShardLoad order state
  if currentAssignments.keys.length < 2 then []
  else
    let x := findExtremes shardLoad (order.range "PlanRebalance" currentAssignments)
    if lt zero x.coldestExecutorLoad &&
        lt (div x.hottestExecutorLoad x.coldestExecutorLoad) maxDeviation then []
    -- The coldest executor must not become the hottest.
    else if le x.hottestExecutorLoad (add x.coldestExecutorLoad x.hottestShardLoad) then []
    else [⟨x.hottestShardID, x.hottestExecutorID, x.coldestExecutorID⟩]

section PlacementSpec

omit [Float64 F]

theorem mem_assignmentCounts {state : NamespaceState F} {executorID : String} :
    executorID ∈ assignmentCounts state ↔ state.Assignable ∅ executorID := by
  rw [assignmentCounts, Map.mem_ofList, ← NamespaceState.mem_assignableExecutorIDs]
  simp

theorem chooseExecutorAndUpdateCounts_ok {order : RangeOrder} {counts counts' : Map String Nat}
    {chosen : String} (h : chooseExecutorAndUpdateCounts order counts = .ok (chosen, counts')) :
    chosen ∈ counts ∧ ∀ executorID, executorID ∈ counts' ↔ executorID ∈ counts := by
  unfold chooseExecutorAndUpdateCounts at h
  split at h
  · cases h
  · rename_i first rest hkeys
    simp only [Except.ok.injEq, Prod.mk.injEq] at h
    obtain ⟨rfl, rfl⟩ := h
    have hchosen := minFunc_mem (fun a b => decide ((counts.lookup a).getD 0 < (counts.lookup b).getD 0 ∨
      (counts.lookup a).getD 0 = (counts.lookup b).getD 0 ∧ a < b)) first rest
    rw [← hkeys, RangeOrder.mem_rangeKeys] at hchosen
    exact ⟨hchosen, fun _ => Map.mem_insert_iff_of_mem hchosen⟩

theorem planInitialPlacement_ok {order : RangeOrder} {state : NamespaceState F} {shardIDs : List String}
    {placements : List Placement} (h : planInitialPlacement order state shardIDs = .ok placements) :
    placements.map Placement.shardID = shardIDs ∧ ∀ p ∈ placements, state.Assignable ∅ p.executorID := by
  obtain ⟨hshards, hmem⟩ :=
    placeEach_ok (fun counts e => e ∈ counts) chooseExecutorAndUpdateCounts_ok h
  exact ⟨hshards, fun p hp => mem_assignmentCounts.mp (hmem p hp)⟩

end PlacementSpec

section RebalanceSpec

variable [LawfulFloat64 F]

open LawfulFloat64

theorem isNaN_foldl_add {weight : String → F} {shardIDs : List String} {sum : F}
    (h : isNaN (shardIDs.foldl (fun sum shardID => add sum (weight shardID)) sum) = false) :
    isNaN sum = false ∧ ∀ shardID ∈ shardIDs, isNaN (weight shardID) = false := by
  induction shardIDs generalizing sum with
  | nil => exact ⟨h, by simp⟩
  | cons shardID rest ih =>
    obtain ⟨hsum, hrest⟩ := ih h
    have hparts : ¬(isNaN sum = true ∨ isNaN (weight shardID) = true) := by
      intro hnan
      rw [isNaN_add hnan] at hsum
      cases hsum
    rw [not_or, Bool.not_eq_true, Bool.not_eq_true] at hparts
    refine ⟨hparts.1, ?_⟩
    intro id hid
    rcases List.mem_cons.mp hid with rfl | hid
    · exact hparts.2
    · exact hrest id hid

/-- A sum that leaves the range of `float64` does so by adding one shard, and
adding that shard to `MaxFloat64` overflows as well. -/
theorem exists_overflow {weight : String → F} {shardIDs : List String} {sum : F}
    (hsum : le sum maxFloat64 = true)
    (hnan : isNaN (shardIDs.foldl (fun sum shardID => add sum (weight shardID)) sum) = false)
    (hover : le (shardIDs.foldl (fun sum shardID => add sum (weight shardID)) sum) maxFloat64 = false) :
    ∃ shardID ∈ shardIDs, le (add maxFloat64 (weight shardID)) (maxFloat64 : F) = false := by
  induction shardIDs generalizing sum with
  | nil =>
    rw [List.foldl_nil, hsum] at hover
    cases hover
  | cons shardID rest ih =>
    cases hnext : le (add sum (weight shardID)) (maxFloat64 : F) with
    | true =>
      obtain ⟨id, hid, hid_over⟩ := ih hnext hnan hover
      exact ⟨id, List.mem_cons_of_mem _ hid, hid_over⟩
    | false =>
      refine ⟨shardID, List.mem_cons_self, ?_⟩
      have hweight := (isNaN_foldl_add hnan).2 shardID List.mem_cons_self
      have hrest : isNaN (rest.foldl (fun sum shardID => add sum (weight shardID))
          (add sum (weight shardID))) = false := hnan
      have hstep := (isNaN_foldl_add hrest).1
      have hmono := add_le_add hsum hstep (isNaN_max_add hweight)
      by_contra hle
      rw [Bool.not_eq_false] at hle
      rw [le_trans hmono hle] at hnext
      cases hnext

theorem le_foldl_hotterShard {shardLoad : Map String F} {shardIDs : List String} (best : String × F)
    (hbest : isNaN best.2 = false)
    (hnan : ∀ shardID ∈ shardIDs, isNaN (loadOf shardLoad shardID) = false) :
    le best.2 (shardIDs.foldl (hotterShard shardLoad) best).2 = true ∧
      ∀ shardID ∈ shardIDs,
        le (loadOf shardLoad shardID) (shardIDs.foldl (hotterShard shardLoad) best).2 = true := by
  induction shardIDs generalizing best with
  | nil => exact ⟨(le_total hbest hbest).elim id id, by simp⟩
  | cons shardID rest ih =>
    have hweight := hnan shardID List.mem_cons_self
    have hstep : isNaN (hotterShard shardLoad best shardID).2 = false ∧
        le best.2 (hotterShard shardLoad best shardID).2 = true ∧
        le (loadOf shardLoad shardID) (hotterShard shardLoad best shardID).2 = true := by
      unfold hotterShard
      split
      · rename_i hle
        exact ⟨hweight, hle, (le_total hweight hweight).elim id id⟩
      · rename_i hle
        refine ⟨hbest, (le_total hbest hbest).elim id id, ?_⟩
        exact (le_total hbest hweight).resolve_left hle
    obtain ⟨hstep_nan, hbest_le, hweight_le⟩ := hstep
    obtain ⟨hfirst, hothers⟩ := ih _ hstep_nan (fun id hid => hnan id (List.mem_cons_of_mem _ hid))
    rw [List.foldl_cons]
    refine ⟨le_trans hbest_le hfirst, ?_⟩
    intro id hid
    rcases List.mem_cons.mp hid with rfl | hid
    · exact le_trans hweight_le hfirst
    · exact hothers id hid

/-- An executor whose load is infinite has a shard that is too hot to move to
an executor of load `MaxFloat64`. -/
theorem le_max_add_hottestShard {shardLoad : Map String F} {shardIDs : List String} (before : String)
    {b : F} (hnan : isNaN (executorLoad shardLoad shardIDs) = false)
    (hover : le (executorLoad shardLoad shardIDs) maxFloat64 = false) (hb : isNaN b = false) :
    le b (add maxFloat64 (hottestShard shardLoad before shardIDs).2) = true := by
  obtain ⟨shardID, hmem, hshard⟩ := exists_overflow zero_le_max hnan hover
  have hweights := (isNaN_foldl_add hnan).2
  have hzero := (not_isNaN_of_le (zero_le_max (F := F))).1
  have hhot := (le_foldl_hotterShard (before, zero) hzero hweights).2 shardID hmem
  have hhot_nan := isNaN_max_add (not_isNaN_of_le hhot).2
  have hmono := add_le_add_left hhot (isNaN_max_add (hweights shardID hmem)) hhot_nan
  refine le_of_not_le_max hhot_nan ?_ hb
  by_contra hle
  rw [Bool.not_eq_false] at hle
  have htrans := le_trans hmono hle
  rw [hshard] at htrans
  cases htrans

/-- Until an executor of finite load is seen, the scan has no coldest
executor, and moving the hottest shard there would not be an improvement. -/
structure NoColdest (x : Extremes F) : Prop where
  coldestExecutorLoad : x.coldestExecutorLoad = maxFloat64
  hottest_le : le x.hottestExecutorLoad (add maxFloat64 x.hottestShardLoad) = true

theorem noColdest_init : NoColdest (Extremes.init : Extremes F) where
  coldestExecutorLoad := rfl
  hottest_le := by
    have hmax := (not_isNaN_of_le (zero_le_max (F := F))).2
    exact le_trans zero_le_max (le_add_zero hmax)

omit [LawfulFloat64 F] in
theorem Extremes.visit_coldest (shardLoad : Map String F) (x : Extremes F) (executorID : String)
    (shardIDs : List String) :
    (x.visit shardLoad executorID shardIDs).coldestExecutorID = executorID ∨
      (x.visit shardLoad executorID shardIDs).coldestExecutorID = x.coldestExecutorID := by
  unfold Extremes.visit
  dsimp only
  split <;> split <;> simp

theorem Extremes.visit_noColdest (shardLoad : Map String F) {x : Extremes F} (hx : NoColdest x)
    (executorID : String) (shardIDs : List String) :
    (x.visit shardLoad executorID shardIDs).coldestExecutorID = executorID ∨
      NoColdest (x.visit shardLoad executorID shardIDs) := by
  cases hcold : le (executorLoad shardLoad shardIDs) x.coldestExecutorLoad with
  | true =>
    left
    unfold Extremes.visit
    simp only [hcold, ite_true]
    split <;> rfl
  | false =>
    right
    unfold Extremes.visit
    simp only [hcold, Bool.false_eq_true, ite_false]
    split
    · rename_i hhot
      have hnan := (not_isNaN_of_le hhot).2
      rw [hx.coldestExecutorLoad] at hcold
      exact ⟨hx.coldestExecutorLoad, le_max_add_hottestShard _ hnan hcold hnan⟩
    · exact hx

theorem findExtremes_coldest (shardLoad : Map String F) (assignments : List (String × List String)) :
    (findExtremes shardLoad assignments).coldestExecutorID ∈ assignments.map Prod.fst ∨
      NoColdest (findExtremes shardLoad assignments) := by
  suffices hfold : ∀ (l : List (String × List String)) (x : Extremes F),
      (x.coldestExecutorID ∈ assignments.map Prod.fst ∨ NoColdest x) → l ⊆ assignments →
      let y := l.foldl (fun x (executorID, shardIDs) => x.visit shardLoad executorID shardIDs) x
      y.coldestExecutorID ∈ assignments.map Prod.fst ∨ NoColdest y from
    hfold assignments .init (.inr noColdest_init) (List.Subset.refl _)
  intro l
  induction l with
  | nil => exact fun x hx _ => hx
  | cons entry rest ih =>
    intro x hx hsub
    have hentry : entry.1 ∈ assignments.map Prod.fst :=
      List.mem_map_of_mem (hsub List.mem_cons_self)
    refine ih _ ?_ (fun e he => hsub (List.mem_cons_of_mem _ he))
    rcases hx with hmem | hnone
    · left
      rcases Extremes.visit_coldest shardLoad x entry.1 entry.2 with h | h
      · exact h ▸ hentry
      · exact h ▸ hmem
    · rcases Extremes.visit_noColdest shardLoad hnone entry.1 entry.2 with h | h
      · exact .inl (h ▸ hentry)
      · exact .inr h

/-- A move always goes to an executor of the assignments. -/
theorem planRebalance_toID {order : RangeOrder} {maxDeviation : F} {state : NamespaceState F}
    {assignments : ListMap String String} {move : Move}
    (h : move ∈ planRebalance order maxDeviation state assignments) : move.toID ∈ assignments := by
  unfold planRebalance at h
  dsimp only at h
  split at h
  · cases h
  · split at h
    · cases h
    · split at h
      · cases h
      · rename_i hnot_hotter
        rw [List.mem_singleton] at h
        subst h
        rcases findExtremes_coldest (calcShardLoad order state)
          (order.range "PlanRebalance" assignments) with hmem | hnone
        · exact RangeOrder.mem_rangeKeys.mp hmem
        · rw [hnone.coldestExecutorLoad] at hnot_hotter
          exact absurd hnone.hottest_le hnot_hotter

end RebalanceSpec

end naive
