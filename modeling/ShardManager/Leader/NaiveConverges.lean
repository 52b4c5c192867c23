import ShardManager.Leader.Converges
import ShardManager.Process.NaiveDescent

open golang etcd etcdkeys store plan executorstore common

namespace leader

open etcdtypes (Value Encoding)

section Reports

variable {pre ns : String} {s s' : Store (Value (WithTop ℚ))} {stale : Map String Int}
  {state state' : NamespaceState (WithTop ℚ)} {order order' : RangeOrder} {weights : String → ℚ}

/-- A pass adds no reports. -/
theorem reports_of_outlives (h : process.Outlives stale state state') {shardID : String} {load : WithTop ℚ}
    (hreports : naive.Reports state' shardID load) : naive.Reports state shardID load := by
  obtain ⟨executorID, heartbeat', report, hlookup', hreport, hload⟩ := hreports
  obtain ⟨-, heartbeat, hlookup, hsame⟩ := h.heartbeat hlookup'
  exact ⟨executorID, heartbeat, report, hlookup, hsame.reportedShards ▸ hreport, hload⟩

/-- It keeps those of executors that are not stale. -/
theorem Sweeps.reports_iff [Encoding (WithTop ℚ)] (h : Sweeps pre ns stale state s s') (hfresh : ∀ executorID, executorID ∉ stale)
    (hread : getState pre ns order s = .ok state) (hread' : getState pre ns order' s' = .ok state')
    {shardID : String} {load : WithTop ℚ} :
    naive.Reports state' shardID load ↔ naive.Reports state shardID load := by
  refine ⟨reports_of_outlives (h.outlives hread hread'), ?_⟩
  rintro ⟨executorID, heartbeat, report, hlookup, hreport, hload⟩
  have hid := (getState_describes hread).2 (Map.mem_iff_exists_lookup.mpr ⟨_, hlookup⟩)
  have hknown : ExecutorKeyType.reportedShards.Known := by trivial
  -- Having a report takes a key, which is still there.
  have hget : s.get (buildExecutorKey pre ns executorID .reportedShards) ≠ none := by
    intro hnone
    rw [(heartbeat_of_lookup hread hlookup).2.2.1, reportedShardsAt, hnone] at hreport
    cases hreport
  have hmem : executorID ∈ state'.executors := by
    refine (mem_executors_iff hread').mpr
      ⟨_, .reportedShards, parseExecutorKey_buildExecutorKey hid hknown, hknown, ?_⟩
    rwa [h.kept hid (hfresh executorID) hknown (by decide) (by decide)]
  obtain ⟨heartbeat', hlookup'⟩ := Map.mem_iff_exists_lookup.mp hmem
  have hsame := h.sameHeartbeat hread hread' (hfresh executorID) hlookup hlookup'
  exact ⟨executorID, heartbeat', report, hlookup', hsame.reportedShards.symm ▸ hreport, hload⟩

/-- The reports are finite, not negative, and agree on each shard. -/
structure Reliable (state : NamespaceState (WithTop ℚ)) : Prop where
  nonneg : naive.NonnegativeReports state
  unambiguous : naive.Unambiguous state

theorem Reliable.of_outlives (h : Reliable state) (houtlives : process.Outlives stale state state') :
    Reliable state' where
  nonneg := by
    rintro ⟨executorID, heartbeat'⟩ hexecutor ⟨shardID, report⟩ hreported report' hreport
    obtain ⟨-, heartbeat, hlookup, hsame⟩ := houtlives.heartbeat (Map.mem_toList_iff.mp hexecutor)
    dsimp only at hreported
    rw [hsame.reportedShards] at hreported
    exact h.nonneg (executorID, heartbeat) (Map.mem_toList_iff.mpr hlookup) (shardID, report) hreported report' hreport
  unambiguous shardID load load' hload hload' :=
    h.unambiguous shardID load load' (reports_of_outlives houtlives hload) (reports_of_outlives houtlives hload')

/-- Reading a store twice. -/
theorem sweeps_refl (pre ns : String) (state : NamespaceState (WithTop ℚ)) (s : Store (Value (WithTop ℚ))) :
    Sweeps pre ns ∅ state s s where
  gone hmem := absurd hmem (AList.notMem_empty _)
  known _ hget := .inl hget
  kept _ _ _ _ _ := rfl
  elsewhere _ _ := rfl

/-- All reads of a store give the shards the same loads. -/
theorem exists_weights [Encoding (WithTop ℚ)]
    (hreliable : ∀ order state, getState pre ns order s = .ok state → Reliable state) :
    ∃ weights, ∀ order state, getState pre ns order s = .ok state → naive.Weighed state weights := by
  by_cases hsome : ∃ order state, getState pre ns order s = .ok state
  · obtain ⟨order₀, state₀, hread₀⟩ := hsome
    obtain ⟨hnonneg, hunambiguous⟩ := hreliable order₀ state₀ hread₀
    obtain ⟨weights, hweighed⟩ := naive.exists_weighed hnonneg hunambiguous
    refine ⟨weights, fun order state hread => hweighed.of_reports_iff ?_⟩
    exact (sweeps_refl pre ns state₀ s).reports_iff (AList.notMem_empty) hread₀ hread
  · exact ⟨fun _ => 0, fun order state hread => absurd ⟨order, state, hread⟩ hsome⟩

end Reports

section Places

variable {pre ns : String} {s : Store (Value (WithTop ℚ))} {state state' : NamespaceState (WithTop ℚ)}
  {order order' : RangeOrder}

/-- The shards that may have to be distributed. -/
def shardSpace (cfg : config.Namespace) (state : NamespaceState (WithTop ℚ)) : Finset String :=
  ((List.range cfg.shardNum.toNat).map toString ++
    state.shardAssignments.toList.flatMap fun entry => entry.2.assignedShards.keys).toFinset

/-- A bound on the ways to distribute them over the executors. -/
def places (cfg : config.Namespace) (state : NamespaceState (WithTop ℚ)) : ℕ :=
  (2 ^ (shardSpace cfg state).card) ^ state.executors.keys.toFinset.card

theorem mem_shardSpace_of_wanted {cfg : config.Namespace} {shardID : String} (h : state.Wanted cfg shardID) :
    shardID ∈ shardSpace cfg state := by
  rw [shardSpace, List.mem_toFinset, List.mem_append]
  obtain ⟨-, h⟩ := h
  cases htype : cfg.type with
  | fixed =>
    rw [htype] at h
    exact .inl h
  | ephemeral =>
    rw [htype] at h
    obtain ⟨⟨executorID, hstores⟩, -⟩ := h
    obtain ⟨record, hlookup, hmem⟩ := NamespaceState.stores_iff.mp hstores
    exact .inr (List.mem_flatMap.mpr ⟨(executorID, record), Map.mem_toList_iff.mpr hlookup, hmem⟩)
  | other name =>
    rw [htype] at h
    exact h.elim

theorem places_eq [Encoding (WithTop ℚ)] (cfg : config.Namespace) (hread : getState pre ns order s = .ok state)
    (hread' : getState pre ns order' s = .ok state') : places cfg state' = places cfg state := by
  have hexecutors : state'.executors.keys.toFinset = state.executors.keys.toFinset := by
    ext executorID
    rw [List.mem_toFinset, List.mem_toFinset]
    exact (mem_executors_iff hread').trans (mem_executors_iff hread).symm
  have hshards : shardSpace cfg state' = shardSpace cfg state := by
    ext shardID
    rw [shardSpace, shardSpace, List.mem_toFinset, List.mem_toFinset, List.mem_append, List.mem_append,
      List.mem_flatMap, List.mem_flatMap]
    refine or_congr Iff.rfl (exists_congr fun entry => and_congr_left' ?_)
    rw [Map.mem_toList_iff, Map.mem_toList_iff, lookup_eq_of_get hread hread' rfl]
  rw [places, places, hexecutors, hshards]

theorem arrangements_le_places {choices : process.Choices} {cfg : process.Config (WithTop ℚ)}
    {stale : Map String Int} {p : process.Planned} {shards available : List String}
    (hallots : process.Allots choices cfg state stale p shards available) :
    naive.arrangements p.currentAssignments ≤ places cfg.namespaceCfg state := by
  have hexecutors : p.currentAssignments.keys.toFinset ⊆ state.executors.keys.toFinset := by
    intro executorID hmem
    rw [List.mem_toFinset] at hmem ⊢
    obtain ⟨heartbeat, hlookup, -⟩ := NamespaceState.assignable_iff.mp ((hallots.distributes.keys executorID).mp hmem)
    exact Map.mem_iff_exists_lookup.mpr ⟨heartbeat, hlookup⟩
  have hshards : (ListMap.elements p.currentAssignments).toFinset ⊆ shardSpace cfg.namespaceCfg state := by
    intro shardID hmem
    rw [List.mem_toFinset, hallots.distributes.perm.mem_iff, hallots.mem_available_iff] at hmem
    exact mem_shardSpace_of_wanted hmem
  calc naive.arrangements p.currentAssignments
      ≤ (2 ^ (shardSpace cfg.namespaceCfg state).card) ^ p.currentAssignments.keys.toFinset.card :=
        Nat.pow_le_pow_left (Nat.pow_le_pow_right Nat.two_pos (Finset.card_le_card hshards)) _
    _ ≤ places cfg.namespaceCfg state :=
        Nat.pow_le_pow_right (Nat.pow_pos Nat.two_pos) (Finset.card_le_card hexecutors)

end Places

section Converge

variable [Encoding (WithTop ℚ)] {pre ns : String} {cfg : process.Config (WithTop ℚ)} {now : Time}
  {s : Store (Value (WithTop ℚ))} {k : ℕ} {env : Environment (WithTop ℚ)} {pass : Pass (WithTop ℚ)}

/-- The shards are distributed and can be moved at most `k` times. -/
def Bounded (pre ns : String) (cfg : process.Config (WithTop ℚ)) (now : Time) (k : ℕ)
    (s : Store (Value (WithTop ℚ))) : Prop :=
  ∃ weights, ∀ order state, getState pre ns order s = .ok state → naive.Weighed state weights ∧
    ∃ current, process.Settled cfg now state current ∧ naive.remaining weights current ≤ k

/-- Nobody is assignable, and the stale executors can be removed once. -/
def Idle (pre ns : String) (cfg : process.Config (WithTop ℚ)) (now : Time) (k : ℕ)
    (s : Store (Value (WithTop ℚ))) : Prop :=
  ∀ order state, getState pre ns order s = .ok state →
    ∀ executorID, ¬state.Assignable (staleExecutors cfg now state) executorID ∧
      (executorID ∈ staleExecutors cfg now state → 0 < k)

variable {state : NamespaceState (WithTop ℚ)}

/-- A cleanup leaves nobody assignable. If it does not fail, nobody is stale
either. -/
theorem CleansUp.idle_after (h : CleansUp pre ns cfg env state pass)
    (hread : getState pre ns env.readOrder pass.before = .ok state) (hk : pass.cleanupErr ≠ none → 0 < k) :
    Idle pre ns cfg env.choices.now k pass.after := by
  intro order' state' hread' executorID
  obtain ⟨removed, -, hall, hsweeps, -⟩ := h.removes
  have houtlives := hsweeps.outlives hread hread'
  refine ⟨fun hassignable => h.idle executorID (houtlives.assignable_before hassignable), fun hstale => hk fun herr => ?_⟩
  obtain ⟨hbefore, hnot⟩ := houtlives.stale_before hstale
  exact hnot (hall herr ▸ hbefore)

/-- The first assignment distributes the shards. -/
theorem bounded_of_assigns (hreliable : Reliable state) (hread : getState pre ns env.readOrder pass.before = .ok state)
    {p : process.Planned} {shards available : List String} (h : Assigns pre ns cfg env state pass p shards available) :
    Bounded pre ns cfg env.choices.now (2 * places cfg.namespaceCfg state) pass.after := by
  obtain ⟨weights, hweights⟩ := exists_weights fun order' state' hread' =>
    hreliable.of_outlives (h.sweeps.outlives hread hread')
  refine ⟨weights, fun order' state' hread' => ⟨hweights order' state' hread', _, h.settled order' state' hread', ?_⟩⟩
  exact (naive.remaining_lt_two_mul weights _).le.trans (Nat.mul_le_mul_left 2 (arrangements_le_places h.allots))

/-- A further one moves shards. -/
theorem Bounded.of_assigns (hmode : cfg.loadBalancing.mode = .naive)
    (hk : Bounded pre ns cfg env.choices.now k pass.before)
    (hread : getState pre ns env.readOrder pass.before = .ok state) {p : process.Planned}
    {shards available : List String} (h : Assigns pre ns cfg env state pass p shards available) :
    ∃ k' < k, Bounded pre ns cfg env.choices.now k' pass.after := by
  obtain ⟨weights, hk⟩ := hk
  obtain ⟨hweighed, current, hsettled, hremaining⟩ := hk _ state hread
  rcases hsettled.descends h.allots hmode hweighed with hkept | hlt
  · exact absurd h.hasOperations (hsettled.not_hasOperations h.allots hkept)
  refine ⟨_, hlt.trans_le hremaining, weights, fun order' state' hread' => ⟨?_, _, h.settled order' state' hread', le_rfl⟩⟩
  exact hweighed.of_reports_iff (h.sweeps.reports_iff hsettled.fresh hread hread')

/-- The bound before the first pass that writes. -/
structure Unsettled (pre ns : String) (cfg : process.Config (WithTop ℚ)) (k : ℕ) (s : Store (Value (WithTop ℚ))) :
    Prop where
  reliable : ∀ order state, getState pre ns order s = .ok state → Reliable state
  bound : ∀ order state, getState pre ns order s = .ok state → 2 * places cfg.namespaceCfg state < k

theorem exists_unsettled (cfg : process.Config (WithTop ℚ))
    (hreliable : ∀ order state, getState pre ns order s = .ok state → Reliable state) :
    ∃ k, Unsettled pre ns cfg k s := by
  by_cases hsome : ∃ order state, getState pre ns order s = .ok state
  · obtain ⟨order₀, state₀, hread₀⟩ := hsome
    refine ⟨2 * places cfg.namespaceCfg state₀ + 1, hreliable, fun order state hread => ?_⟩
    rw [places_eq _ hread₀ hread]
    exact Nat.lt_succ_self _
  · exact ⟨0, hreliable, fun order state hread => absurd ⟨order, state, hread⟩ hsome⟩

/-- A bound on the passes that can still change something. -/
def Bound (pre ns : String) (cfg : process.Config (WithTop ℚ)) (now : Time) (k : ℕ)
    (s : Store (Value (WithTop ℚ))) : Prop :=
  Unsettled pre ns cfg k s ∨ Idle pre ns cfg now k s ∨ Bounded pre ns cfg now k s

theorem Bound.of_cleansUp (hk : Bound pre ns cfg env.choices.now k pass.before)
    (hread : getState pre ns env.readOrder pass.before = .ok state) (h : CleansUp pre ns cfg env state pass) :
    ∃ k' ≤ k, (pass.cleanupErr = none → k' < k) ∧ Bound pre ns cfg env.choices.now k' pass.after := by
  obtain ⟨executorID, hstale⟩ := h.stale
  have hpos : 0 < k := by
    rcases hk with hunsettled | hidle | ⟨weights, hbounded⟩
    · exact Nat.zero_lt_of_lt (hunsettled.bound _ state hread)
    · exact (hidle _ state hread executorID).2 hstale
    · obtain ⟨-, current, hsettled, -⟩ := hbounded _ state hread
      exact absurd hstale (hsettled.fresh executorID)
  by_cases herr : pass.cleanupErr = none
  · exact ⟨0, hpos.le, fun _ => hpos, .inr (.inl (h.idle_after hread fun hfailed => absurd herr hfailed))⟩
  · exact ⟨k, le_rfl, fun hnone => absurd hnone herr, .inr (.inl (h.idle_after hread fun _ => hpos))⟩

theorem Bound.of_assigns (hmode : cfg.loadBalancing.mode = .naive)
    (hk : Bound pre ns cfg env.choices.now k pass.before)
    (hread : getState pre ns env.readOrder pass.before = .ok state) {p : process.Planned}
    {shards available : List String} (h : Assigns pre ns cfg env state pass p shards available) :
    ∃ k' < k, Bound pre ns cfg env.choices.now k' pass.after := by
  rcases hk with hunsettled | hidle | hbounded
  · exact ⟨_, hunsettled.bound _ state hread,
      .inr (.inr (bounded_of_assigns (hunsettled.reliable _ state hread) hread h))⟩
  · obtain ⟨executorID, hassignable⟩ := h.active
    exact absurd hassignable (hidle _ state hread executorID).1
  · obtain ⟨k', hlt, hnext⟩ := hbounded.of_assigns hmode hread h
    exact ⟨k', hlt, .inr (.inr hnext)⟩

/-- With naive balancing and everything but the assignments fixed, rebalancing
converges: of however many passes that return no error and whose cleanup does
not fail, only so many change an assignment record or remove an executor, and
all others send no write. Loads are exact, not negative, and no two executors
report different loads for a shard. -/
theorem naive_passes_converge (pre ns : String) (cfg : process.Config (WithTop ℚ))
    (hmode : cfg.loadBalancing.mode = .naive) (now : Time) (s : Store (Value (WithTop ℚ)))
    (hreliable : ∀ order state, getState pre ns order s = .ok state → Reliable state) :
    ∃ bound, ∀ envs trace, passes pre ns cfg envs s = some trace → (∀ env ∈ envs, env.choices.now = now) →
      (∀ changing : List (Pass (WithTop ℚ)), changing.Sublist trace →
        (∀ pass ∈ changing, pass.cleanupErr = none ∧ pass.Changes pre ns) → changing.length ≤ bound) ∧
      ∀ pass ∈ trace, pass.cleanupErr = none → ¬pass.Changes pre ns →
        pass.after = pass.before ∧ pass.transactions = 0 := by
  obtain ⟨bound, hbound⟩ := exists_unsettled cfg hreliable
  refine ⟨bound, fun envs trace h hnow => ?_⟩
  refine passes_descend (fun _ => True) (Bound pre ns cfg now) ?_ ?_ (.inl hbound) h hnow fun _ _ => trivial
  · rintro k env pass state rfl hk hread hcleans
    exact hk.of_cleansUp hread hcleans
  · rintro k env pass state p shards available rfl - hk hread hassigns
    exact hk.of_assigns hmode hread hassigns

end Converge

section Examples

instance : Encoding (WithTop ℚ) := .ofCode (WithTop ℚ)

/-- Executor `a` has the load 5 and `b` the load 1. -/
def hotAndCold : Store (Value (WithTop ℚ)) :=
  (Txn.flat [] [
    .put (buildExecutorKey "/shards" "orders" "a" .heartbeat) (.time 1),
    .put (buildExecutorKey "/shards" "orders" "a" .status) (.status .active),
    .put (buildExecutorKey "/shards" "orders" "a" .reportedShards)
      (.reportedShards [("0", some ⟨.ready, 3⟩), ("1", some ⟨.ready, 2⟩)]),
    .put (assignedStateKey "/shards" "orders" "a")
      (.assignedState ⟨[("0", some ⟨.ready⟩), ("1", some ⟨.ready⟩)], [], 0⟩),
    .put (buildExecutorKey "/shards" "orders" "b" .heartbeat) (.time 1),
    .put (buildExecutorKey "/shards" "orders" "b" .status) (.status .active),
    .put (buildExecutorKey "/shards" "orders" "b" .reportedShards) (.reportedShards [("2", some ⟨.ready, 1⟩)]),
    .put (assignedStateKey "/shards" "orders" "b") (.assignedState ⟨[("2", some ⟨.ready⟩)], [], 0⟩)] []).next .empty

def naiveShards : process.Config (WithTop ℚ) where
  namespaceCfg := ⟨"orders", .fixed, 3⟩
  heartbeatTTL := 10
  loadBalancing := ⟨.naive, 2, ⟨0, 0, 0, 0, 0⟩⟩

def naiveEnvironment : Environment (WithTop ℚ) :=
  ⟨.stored, process.firstChoices, nopGuard, 128, .delivered, [], fun _ => .delivered⟩

theorem reliable_hotAndCold (order : RangeOrder) (state : NamespaceState (WithTop ℚ))
    (hread : getState "/shards" "orders" order hotAndCold = .ok state) : Reliable state := by
  have heval : (getState "/shards" "orders" .stored hotAndCold).map (fun state =>
      decide (naive.NonnegativeReports state ∧ ∀ x ∈ naive.reportedLoads .stored state,
        ∀ y ∈ naive.reportedLoads .stored state, x.1 = y.1 → x.2 = y.2)) = .ok true := by
    decide +kernel
  -- The executors do not depend on the order.
  obtain ⟨data, hparse, hstate⟩ := bind_eq_ok_iff.mp hread
  cases hstate
  rw [getState, hparse] at heval
  obtain ⟨hnonneg, hagree⟩ := of_decide_eq_true (Except.ok.inj heval)
  refine ⟨hnonneg, fun shardID load load' hload hload' => ?_⟩
  exact hagree (shardID, load) (naive.mem_reportedLoads.mpr hload) (shardID, load')
    (naive.mem_reportedLoads.mpr hload') rfl

/-- The first pass moves a shard to `b`, and the second one finds nothing to do. -/
theorem hotAndCold_converges : ∃ trace bound,
    passes "/shards" "orders" naiveShards (List.replicate 2 naiveEnvironment) hotAndCold = some trace ∧
    trace.map (·.transactions) = [1, 0] ∧ trace.map (·.moves) = [[⟨"0", "a", "b"⟩], []] ∧
    trace.map (·.cleanupErr) = [none, none] ∧
    ∀ changing : List (Pass (WithTop ℚ)), changing.Sublist trace →
      (∀ pass ∈ changing, pass.cleanupErr = none ∧ pass.Changes "/shards" "orders") → changing.length ≤ bound := by
  have heval : (passes "/shards" "orders" naiveShards (List.replicate 2 naiveEnvironment) hotAndCold).map
      (fun trace => (trace.map (·.transactions), trace.map (·.moves), trace.map (·.cleanupErr))) =
        some ([1, 0], [[⟨"0", "a", "b"⟩], []], [none, none]) := by
    decide +kernel
  obtain ⟨trace, htrace, hfacts⟩ := Option.map_eq_some_iff.mp heval
  obtain ⟨htransactions, hfacts⟩ := Prod.mk.inj hfacts
  obtain ⟨hmoves, herr⟩ := Prod.mk.inj hfacts
  obtain ⟨bound, hbound⟩ := naive_passes_converge "/shards" "orders" naiveShards rfl 2 hotAndCold reliable_hotAndCold
  refine ⟨trace, bound, htrace, htransactions, hmoves, herr, (hbound _ trace htrace ?_).1⟩
  exact fun env henv => (List.eq_of_mem_replicate henv) ▸ rfl

end Examples

end leader
