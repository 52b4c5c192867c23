import ShardManager.Abstract.Descent
import ShardManager.Process.NaiveMoves
import ShardManager.Process.Settled

open golang golang.Float64 store plan

namespace naive

section Weights

/-- Some executor reports this load for the shard. -/
def Reports (state : NamespaceState (WithTop ℚ)) (shardID : String) (load : WithTop ℚ) : Prop :=
  ∃ executorID heartbeat report, state.executors.lookup executorID = some heartbeat ∧
    heartbeat.reportedShards.lookup shardID = some (some report) ∧ report.shardLoad = load

/-- The loads that the reports give the shards, whatever the order they are read
in. -/
structure Weighed (state : NamespaceState (WithTop ℚ)) (weights : String → ℚ) : Prop where
  reported : ∀ {shardID load}, Reports state shardID load → load = weights shardID
  unreported : ∀ {shardID}, (∀ load, ¬Reports state shardID load) → weights shardID = 0
  nonneg : ∀ shardID, 0 ≤ weights shardID

variable {state : NamespaceState (WithTop ℚ)} {weights : String → ℚ}

/-- The reports in the order `calcShardLoad` reads them. -/
def reportedLoads (order : RangeOrder) (state : NamespaceState (WithTop ℚ)) : List (String × WithTop ℚ) :=
  (order.range "calcShardLoad" state.executors).flatMap fun (executorID, heartbeat) =>
    (order.range s!"calcShardLoad/{executorID}" heartbeat.reportedShards).filterMap
      fun (shardID, report) => report.map fun r => (shardID, r.shardLoad)

theorem calcShardLoad_eq (order : RangeOrder) (state : NamespaceState (WithTop ℚ)) :
    calcShardLoad order state = Map.ofList (reportedLoads order state) := rfl

theorem mem_reportedLoads {order : RangeOrder} {shardID : String} {load : WithTop ℚ} :
    (shardID, load) ∈ reportedLoads order state ↔ Reports state shardID load := by
  rw [reportedLoads, List.mem_flatMap]
  constructor
  · rintro ⟨⟨executorID, heartbeat⟩, hexecutor, hmem⟩
    obtain ⟨⟨reportedID, report⟩, hreported, hreport⟩ := List.mem_filterMap.mp hmem
    obtain ⟨report, rfl, heq⟩ := Option.map_eq_some_iff.mp hreport
    cases heq
    exact ⟨executorID, heartbeat, report, RangeOrder.mem_range_iff.mp hexecutor,
      RangeOrder.mem_range_iff.mp hreported, rfl⟩
  · rintro ⟨executorID, heartbeat, report, hexecutor, hreported, rfl⟩
    exact ⟨(executorID, heartbeat), RangeOrder.mem_range_iff.mpr hexecutor,
      List.mem_filterMap.mpr ⟨(shardID, some report), RangeOrder.mem_range_iff.mpr hreported, rfl⟩⟩

/-- What is looked up was reported, and what was reported is found. -/
theorem lookup_calcShardLoad (order : RangeOrder) (state : NamespaceState (WithTop ℚ)) (shardID : String) :
    (∃ load, (calcShardLoad order state).lookup shardID = some load ∧ Reports state shardID load) ∨
      (calcShardLoad order state).lookup shardID = none ∧ ∀ load, ¬Reports state shardID load := by
  cases hlookup : (calcShardLoad order state).lookup shardID with
  | some load => exact .inl ⟨load, rfl, mem_reportedLoads.mp (Map.mem_of_lookup_ofList hlookup)⟩
  | none =>
    refine .inr ⟨rfl, fun load hreports => ?_⟩
    have hmem : shardID ∈ calcShardLoad order state := by
      rw [calcShardLoad_eq, Map.mem_ofList]
      exact List.mem_map.mpr ⟨(shardID, load), mem_reportedLoads.mpr hreports, rfl⟩
    obtain ⟨load', hload'⟩ := Map.mem_iff_exists_lookup.mp hmem
    cases hlookup.symm.trans hload'

theorem Weighed.loadOf_calcShardLoad (h : Weighed state weights) (order : RangeOrder) (shardID : String) :
    loadOf (calcShardLoad order state) shardID = weights shardID := by
  rcases lookup_calcShardLoad order state shardID with ⟨load, hlookup, hreports⟩ | ⟨hlookup, hnone⟩
  · rw [loadOf, hlookup]
    exact h.reported hreports
  · rw [loadOf, hlookup, h.unreported hnone]
    rfl

theorem Weighed.weight_eq (h : Weighed state weights) (order : RangeOrder) :
    weight (calcShardLoad order state) = weights := by
  funext shardID
  rw [weight, h.loadOf_calcShardLoad, WithTop.untopD_coe]

theorem Weighed.measured (h : Weighed state weights) (order : RangeOrder) : Measured (calcShardLoad order state) where
  loadOf_eq shardID := by rw [h.weight_eq, h.loadOf_calcShardLoad]
  nonneg shardID := by
    rw [h.weight_eq]
    exact h.nonneg shardID

theorem Weighed.of_reports_iff {state' : NamespaceState (WithTop ℚ)} (h : Weighed state weights)
    (hreports : ∀ {shardID load}, Reports state' shardID load ↔ Reports state shardID load) : Weighed state' weights where
  reported hreport := h.reported (hreports.mp hreport)
  unreported hnone := h.unreported fun load hreport => hnone load (hreports.mpr hreport)
  nonneg := h.nonneg

/-- Two executors that report a shard report the same load. -/
def Unambiguous (state : NamespaceState (WithTop ℚ)) : Prop :=
  ∀ shardID load load', Reports state shardID load → Reports state shardID load' → load = load'

theorem exists_weighed (hreports : NonnegativeReports state) (hunambiguous : Unambiguous state) :
    ∃ weights, Weighed state weights := by
  have hmeasured := measured_calcShardLoad .stored hreports
  refine ⟨weight (calcShardLoad .stored state), ?_, ?_, hmeasured.nonneg⟩
  · intro shardID load hreported
    rw [← hmeasured.loadOf_eq, loadOf]
    rcases lookup_calcShardLoad .stored state shardID with ⟨load', hlookup, hreported'⟩ | ⟨-, hnone⟩
    · rw [hlookup]
      exact hunambiguous shardID load load' hreported hreported'
    · exact absurd hreported (hnone load)
  · intro shardID hnone
    rcases lookup_calcShardLoad .stored state shardID with ⟨load, -, hreported⟩ | ⟨hlookup, -⟩
    · exact absurd hreported (hnone load)
    · rw [weight, loadOf, hlookup]
      rfl

end Weights

section Cost

variable {shardLoad : Map String (WithTop ℚ)} {weights : String → ℚ} {current next : ListMap String String}

/-- The squared loads of the executors, added up. -/
def cost (weights : String → ℚ) (current : ListMap String String) : ℚ :=
  descent.cost weights current.keys.toFinset fun executorID => (ListMap.index current executorID).toFinset

/-- The costs of everything that can be given to the same executors. -/
def costs (weights : String → ℚ) (current : ListMap String String) : Finset ℚ :=
  descent.costs weights current.keys.toFinset (ListMap.elements current).toFinset

/-- A bound on the number of such costs. -/
def arrangements (current : ListMap String String) : ℕ :=
  (2 ^ (ListMap.elements current).toFinset.card) ^ current.keys.toFinset.card

/-- No executor is empty. -/
def full (current : ListMap String String) : Bool :=
  current.keys.all fun executorID => !(ListMap.index current executorID).isEmpty

/-- A bound on the changes a load balancer can still make: it steps down through
the costs, and an executor that is empty may be filled once. -/
def remaining (weights : String → ℚ) (current : ListMap String String) : ℕ :=
  descent.rank (costs weights current) (cost weights current) + if full current then 0 else arrangements current

theorem full_iff : full current = true ↔ ∀ executorID ∈ current, ListMap.index current executorID ≠ [] := by
  rw [full, List.all_eq_true]
  refine forall₂_congr fun executorID _ => ?_
  rw [Bool.not_eq_true', List.isEmpty_eq_false_iff]

theorem squares_loads (hnodup : (ListMap.elements current).Nodup) (hweights : weight shardLoad = weights) :
    balance.squares (loads shardLoad current) = cost weights current := by
  have hheld : ∀ executorID, ∑ shardID ∈ (ListMap.index current executorID).toFinset, weights shardID =
      total shardLoad (ListMap.index current executorID) := by
    intro executorID
    rw [List.sum_toFinset _ (ListMap.index_nodup hnodup executorID), total, hweights]
  rw [cost, descent.cost, List.sum_toFinset _ current.keys_nodup, ← Map.map_fst_toList, List.map_map,
    balance.squares, loads, List.map_map]
  congr 1
  refine List.map_congr_left fun entry hentry => ?_
  have hindex := ListMap.index_of_lookup (Map.mem_toList_iff.mp hentry)
  rw [Function.comp_apply, Function.comp_apply, hheld, hindex]

theorem rank_lt_arrangements (weights : String → ℚ) (current : ListMap String String) :
    descent.rank (costs weights current) (cost weights current) < arrangements current := by
  have hmem : cost weights current ∈ costs weights current := by
    refine descent.cost_mem_costs fun executorID _ shardID hshard => ?_
    rw [List.mem_toFinset] at hshard ⊢
    exact ListMap.mem_elements.mpr ⟨executorID, hshard⟩
  exact (descent.rank_lt_card hmem).trans_le (descent.card_costs_le _ _ _)

theorem remaining_lt_two_mul (weights : String → ℚ) (current : ListMap String String) :
    remaining weights current < 2 * arrangements current := by
  have hrank := rank_lt_arrangements weights current
  rw [remaining]
  split <;> omega

/-- Both give the same shards to the same executors. -/
structure SameParts (current next : ListMap String String) : Prop where
  keys : ∀ executorID, executorID ∈ next ↔ executorID ∈ current
  elements : ∀ shardID, shardID ∈ ListMap.elements next ↔ shardID ∈ ListMap.elements current

namespace SameParts

variable (h : SameParts current next)

include h

theorem keys_eq : next.keys.toFinset = current.keys.toFinset := by
  ext executorID
  rw [List.mem_toFinset, List.mem_toFinset]
  exact h.keys executorID

theorem elements_eq : (ListMap.elements next).toFinset = (ListMap.elements current).toFinset := by
  ext shardID
  rw [List.mem_toFinset, List.mem_toFinset]
  exact h.elements shardID

theorem arrangements_eq : arrangements next = arrangements current := by
  rw [arrangements, arrangements, h.keys_eq, h.elements_eq]

theorem costs_eq (weights : String → ℚ) : costs weights next = costs weights current := by
  rw [costs, costs, h.keys_eq, h.elements_eq]

/-- Every executor has the same shards, in whatever order. -/
theorem cost_eq (weights : String → ℚ) (hindex : ∀ executorID shardID,
    shardID ∈ ListMap.index next executorID ↔ shardID ∈ ListMap.index current executorID) :
    cost weights next = cost weights current := by
  have hheld : (fun executorID => (ListMap.index next executorID).toFinset) =
      fun executorID => (ListMap.index current executorID).toFinset := by
    funext executorID
    ext shardID
    rw [List.mem_toFinset, List.mem_toFinset]
    exact hindex executorID shardID
  rw [cost, cost, h.keys_eq, hheld]

theorem remaining_lt_of_cost (hcost : cost weights next < cost weights current)
    (hfull : full current = true → full next = true) : remaining weights next < remaining weights current := by
  have hrank : descent.rank (costs weights next) (cost weights next) <
      descent.rank (costs weights current) (cost weights current) := by
    rw [h.costs_eq]
    refine descent.rank_lt_rank ?_ hcost
    rw [← h.costs_eq]
    refine descent.cost_mem_costs fun executorID _ shardID hshard => ?_
    rw [List.mem_toFinset] at hshard ⊢
    exact ListMap.mem_elements.mpr ⟨executorID, hshard⟩
  rw [remaining, remaining, h.arrangements_eq]
  cases hcurrent : full current with
  | false => split <;> simp <;> omega
  | true => simpa [hfull hcurrent] using hrank

/-- Filling the empty executors may raise the cost, but happens only once. -/
theorem remaining_lt_of_full (hnext : full next = true) (hcurrent : full current = false) :
    remaining weights next < remaining weights current := by
  have hrank := rank_lt_arrangements weights next
  rw [remaining, remaining, hnext, hcurrent, ← h.arrangements_eq]
  simp
  omega

end SameParts

end Cost

section Plan

variable {order : RangeOrder} {maxDeviation : WithTop ℚ} {state : NamespaceState (WithTop ℚ)}
  {assignments after : ListMap String String} {move : Move} {shardLoad : Map String (WithTop ℚ)}

theorem Contract.squares_lt (h : Contract shardLoad assignments move)
    (happly : process.applyMoves assignments [move] = .ok after) :
    balance.squares (loads shardLoad after) < balance.squares (loads shardLoad assignments) := by
  obtain ⟨after', happly', -, himproves⟩ := h.applies
  cases happly.symm.trans happly'
  exact himproves.squares_lt

/-- The executor that gives up a shard keeps another one. -/
theorem Contract.full (hmeasured : Measured shardLoad) (h : Contract shardLoad assignments move)
    (happly : process.applyMoves assignments [move] = .ok after) (hfull : full assignments = true) :
    full after = true := by
  obtain ⟨after', happly', hcolder, -⟩ := h.applies
  cases happly.symm.trans happly'
  obtain ⟨next, hnext, hdone⟩ := bind_eq_ok_iff.mp happly
  cases hdone
  unfold process.applyMove at hnext
  dsimp only at hnext
  split at hnext
  · cases hnext
  rename_i idx hidx
  cases hnext
  obtain ⟨hlt, hget, -⟩ := List.idxOf?_eq_some_iff.mp hidx
  have hperm := perm_swapRemove (List.getElem?_eq_some_iff.mpr ⟨hlt, hget⟩)
  rw [ListMap.index_push, if_pos rfl, ListMap.index_insert, if_neg h.ne.symm] at hcolder
  rw [full_iff] at hfull ⊢
  intro executorID hmem
  rw [ListMap.index_push]
  split
  · exact List.append_ne_nil_of_right_ne_nil _ (List.cons_ne_nil _ _)
  rename_i hto
  rw [ListMap.index_insert]
  split
  · rename_i hfrom
    intro hnil
    rw [hnil] at hperm
    have htotal : total shardLoad (ListMap.index assignments move.fromID) = weight shardLoad move.shardID := by
      rw [total, (hperm.map _).sum_eq, List.map_singleton, List.sum_singleton]
    rw [htotal, total, List.map_append, List.sum_append, List.map_singleton, List.sum_singleton] at hcolder
    have hnonneg := total_nonneg hmeasured (ListMap.index assignments move.toID)
    rw [total] at hnonneg
    linarith
  · rename_i hfrom
    refine hfull executorID ?_
    rw [ListMap.push, AList.mem_insert, AList.mem_insert] at hmem
    exact (hmem.resolve_left hto).resolve_left hfrom

/-- Applying what the planner returns lowers the cost unless it is nothing. -/
theorem applyMoves_planRebalance {weights : String → ℚ} (hweighed : Weighed state weights)
    (hnodup : (ListMap.elements assignments).Nodup) (hnodup' : (ListMap.elements after).Nodup)
    (happly : process.applyMoves assignments (planRebalance order maxDeviation state assignments) = .ok after) :
    after = assignments ∨
      cost weights after < cost weights assignments ∧ (full assignments = true → full after = true) := by
  have hmeasured := hweighed.measured order
  rcases planRebalance_cases hmeasured with hmoves | ⟨move, hmoves, hcontract⟩
  · rw [hmoves] at happly
    cases happly
    exact .inl rfl
  · rw [hmoves] at happly
    refine .inr ⟨?_, hcontract.full hmeasured happly⟩
    rw [← squares_loads hnodup (hweighed.weight_eq order), ← squares_loads hnodup' (hweighed.weight_eq order)]
    exact hcontract.squares_lt happly

end Plan

end naive

namespace process

open naive

variable {choices : Choices} {cfg : Config (WithTop ℚ)} {state : NamespaceState (WithTop ℚ)}
  {current : ListMap String String} {p : Planned} {shards available : List String} {weights : String → ℚ}
  (h : Settled cfg choices.now state current)
  (hallots : Allots choices cfg state (identifyStaleExecutors cfg.heartbeatTTL choices.now state) p shards available)

include h hallots

theorem Settled.sameParts : SameParts current p.currentAssignments where
  keys executorID := (hallots.distributes.keys executorID).trans (h.keys executorID).symm
  elements shardID := by rw [hallots.distributes.perm.mem_iff, hallots.mem_available_iff, h.wanted]

theorem Settled.sameParts_kept : SameParts current p.keptAssignments where
  keys executorID := by
    obtain ⟨_, _, -, -, hfound⟩ := findShardsToReassign_ok hallots.planned.found
    rw [hfound.keys, PlannedBy.mem_assignableExecutors, NamespaceState.mem_assignableExecutorIDs, ← h.keys]
  elements shardID := by
    rw [ListMap.mem_elements, ListMap.mem_elements]
    exact exists_congr fun executorID => (h.kept hallots).2 executorID shardID

theorem Settled.full_kept (hcurrent : full current = true) : full p.keptAssignments = true := by
  rw [full_iff] at hcurrent ⊢
  intro executorID hmem
  obtain ⟨shardID, hshard⟩ := List.exists_mem_of_ne_nil _
    (hcurrent executorID (((h.sameParts_kept hallots).keys executorID).mp hmem))
  exact List.ne_nil_of_mem (((h.kept hallots).2 executorID shardID).mpr hshard)

/-- Either nothing has to be filled, or there were empty executors and now there
are none. -/
theorem Settled.filled_cases {filled : ListMap String String} {changed : Bool}
    (hfilled : assignShardsToEmptyExecutors p.keptAssignments = .ok (changed, filled)) :
    filled = p.keptAssignments ∨ full filled = true ∧ full current = false := by
  cases hcurrent : full current with
  | true =>
    have hkept := full_iff.mp (h.full_kept hallots hcurrent)
    rw [assignShardsToEmptyExecutors_of_nonempty hkept, Except.ok.injEq, Prod.mk.injEq] at hfilled
    exact .inl hfilled.2.symm
  | false =>
    refine (assignShardsToEmptyExecutors_fills hfilled).imp id fun hfull => ⟨full_iff.mpr fun executorID hmem => ?_, rfl⟩
    have hdistributes : Distributes p.keptAssignments (· ∈ p.keptAssignments) (ListMap.elements p.keptAssignments) :=
      ⟨fun _ => Iff.rfl, .refl _⟩
    exact hfull executorID
      (((assignShardsToEmptyExecutors_distributes hdistributes hfilled).keys executorID).mp hmem)

/-- A plan for a settled state keeps what there is, or leaves fewer changes to be
made. -/
theorem Settled.descends (hmode : cfg.loadBalancing.mode = .naive) (hweighed : Weighed state weights) :
    p.currentAssignments = p.keptAssignments ∨ remaining weights p.currentAssignments < remaining weights current := by
  obtain ⟨filled, updated, hfilled, hupdated, hplan, hcurrent⟩ := hallots.planned.rebalanced
  obtain ⟨_, available', -, -, hfound⟩ := findShardsToReassign_ok hallots.planned.found
  rw [(h.kept hallots).1, updateAssignments, if_pos rfl, Prod.mk.injEq] at hupdated
  obtain ⟨-, rfl⟩ := hupdated
  rw [loadbalancer.planRebalance, hmode, Except.ok.injEq] at hplan
  rw [← hplan] at hcurrent
  have hkept : (ListMap.elements p.keptAssignments).Nodup :=
    (hfound.perm.nodup_iff.mpr hfound.nodup).of_append_right
  have hnodup : (ListMap.elements filled).Nodup :=
    (assignShardsToEmptyExecutors_distributes ⟨fun _ => Iff.rfl, .refl _⟩ hfilled).perm.nodup_iff.mpr hkept
  have happlied := applyMoves_planRebalance hweighed hnodup (hallots.distributes.perm.nodup_iff.mpr hallots.nodup)
    hcurrent
  rcases h.filled_cases hallots hfilled with rfl | ⟨hfull, hempty⟩
  · refine happlied.imp id fun hmoved => ?_
    obtain ⟨hcost, hfull⟩ := hmoved
    rw [(h.sameParts_kept hallots).cost_eq weights (h.kept hallots).2] at hcost
    exact (h.sameParts hallots).remaining_lt_of_cost hcost fun hcurrent => hfull (h.full_kept hallots hcurrent)
  · refine .inr ((h.sameParts hallots).remaining_lt_of_full ?_ hempty)
    rcases happlied with hsame | ⟨-, hstays⟩
    · rw [hsame, hfull]
    · exact hstays hfull

end process
