import ShardManager.Leader.Establishes

open golang etcd etcdkeys store plan executorstore common

namespace leader

open etcdtypes (Value Encoding)

variable {F : Type} [Float64 F] [Encoding F] {pre ns : String} {s : Store (Value F)}

section Run

variable [LawfulFloat64 F] [DecidableEq F] {cfg : process.Config F} {now : Time}

/-- Passes that lower a bound whenever they write, except that a failed cleanup
may keep it. -/
theorem passes_descend (calm : Pass F → Prop) (bounds : ℕ → Store (Value F) → Prop)
    (hcleanup : ∀ {k env pass state}, env.choices.now = now → bounds k pass.before →
      getState pre ns env.readOrder pass.before = .ok state → CleansUp pre ns cfg env state pass →
        ∃ k' ≤ k, (pass.cleanupErr = none → k' < k) ∧ bounds k' pass.after)
    (hassign : ∀ {k env pass state p shards available}, env.choices.now = now → calm pass → bounds k pass.before →
      getState pre ns env.readOrder pass.before = .ok state →
      Assigns pre ns cfg env state pass p shards available → ∃ k' < k, bounds k' pass.after)
    {k : ℕ} {s : Store (Value F)} {envs : List (Environment F)} {trace : List (Pass F)} (hk : bounds k s)
    (h : passes pre ns cfg envs s = some trace) (hnow : ∀ env ∈ envs, env.choices.now = now)
    (hcalm : ∀ pass ∈ trace, calm pass) :
    (∀ changing : List (Pass F), changing.Sublist trace →
      (∀ pass ∈ changing, pass.cleanupErr = none ∧ pass.Changes pre ns) → changing.length ≤ k) ∧
      ∀ pass ∈ trace, pass.cleanupErr = none → ¬pass.Changes pre ns →
        pass.after = pass.before ∧ pass.transactions = 0 := by
  induction envs generalizing s k trace with
  | nil =>
    cases h
    refine ⟨fun changing hsublist _ => ?_, List.forall_mem_nil _⟩
    rw [List.sublist_nil.mp hsublist]
    exact Nat.zero_le k
  | cons env envs ih =>
    obtain ⟨pass, hpass, h⟩ := Option.bind_eq_some_iff.mp h
    obtain ⟨rest, hrest, h⟩ := Option.bind_eq_some_iff.mp h
    cases h
    obtain ⟨henv, hnow⟩ := List.forall_mem_cons.mp hnow
    obtain ⟨hfirst, hcalm⟩ := List.forall_mem_cons.mp hcalm
    -- Either the pass is quiet, or it lowers the bound if it counts.
    have hstep : pass.after = pass.before ∧ pass.transactions = 0 ∧ bounds k pass.after ∨
        (pass.cleanupErr = none → pass.Changes pre ns) ∧
          ∃ k' ≤ k, (pass.cleanupErr = none → k' < k) ∧ bounds k' pass.after := by
      obtain ⟨rfl, state, hread, ⟨hafter, hnone, -⟩ | hcleans | ⟨p, shards, available, hassigns⟩⟩ := pass_cases hpass
      · exact .inl ⟨hafter, hnone, hafter.symm ▸ hk⟩
      · exact .inr ⟨fun herr => hcleans.changes herr hread, hcleanup henv hk hread hcleans⟩
      · obtain ⟨k', hlt, hk'⟩ := hassign henv hfirst hk hread hassigns
        exact .inr ⟨fun _ => hassigns.changes, k', hlt.le, fun _ => hlt, hk'⟩
    rcases hstep with ⟨hsame, hnone, hk'⟩ | ⟨hchanges, k', hle, hlt, hk'⟩
    · obtain ⟨hbound, hquiet⟩ := ih hk' hrest hnow hcalm
      refine ⟨fun changing hsublist hall => ?_, List.forall_mem_cons.mpr ⟨fun _ _ => ⟨hsame, hnone⟩, hquiet⟩⟩
      cases hsublist with
      | cons _ hsublist => exact hbound changing hsublist hall
      | cons_cons _ hsublist => exact absurd (hall pass List.mem_cons_self).2 (pass.not_changes_of_eq hsame)
    · obtain ⟨hbound, hquiet⟩ := ih hk' hrest hnow hcalm
      refine ⟨fun changing hsublist hall => ?_,
        List.forall_mem_cons.mpr ⟨fun herr hnot => absurd (hchanges herr) hnot, hquiet⟩⟩
      cases hsublist with
      | cons _ hsublist => exact (hbound changing hsublist hall).trans hle
      | cons_cons _ hsublist =>
        obtain ⟨⟨herr, -⟩, hall⟩ := List.forall_mem_cons.mp hall
        exact (Nat.succ_le_succ (hbound _ hsublist hall)).trans (hlt herr)

end Run

section Converge

/-- The state is one that no pass without moves changes: there is nobody to
assign to and nobody to clean up, or everybody has what they should have and
no executor is empty. -/
def Still (cfg : process.Config F) (now : Time) (state : NamespaceState F) : Prop :=
  (∀ executorID, ¬state.Assignable (process.identifyStaleExecutors cfg.heartbeatTTL now state) executorID ∧
    executorID ∉ process.identifyStaleExecutors cfg.heartbeatTTL now state) ∨
  ∃ current, process.Settled cfg now state current ∧
    ∀ executorID ∈ current, ListMap.index current executorID ≠ []

/-- A bound on the passes that can still write: none from a still state, one
from a settled one and two from any. -/
def Remaining (pre ns : String) (cfg : process.Config F) (now : Time) : Nat → Store (Value F) → Prop
  | 0, s => ∀ order state, getState pre ns order s = .ok state → Still cfg now state
  | 1, s => ∀ order state, getState pre ns order s = .ok state →
      Still cfg now state ∨ ∃ current, process.Settled cfg now state current
  | _, _ => True

variable [LawfulFloat64 F] [DecidableEq F] {cfg : process.Config F} {env : Environment F} {pass : Pass F}
  {state : NamespaceState F}

omit [Float64 F] [LawfulFloat64 F] [DecidableEq F] in
/-- Where a cleanup finds somebody stale, two passes may still write. It leaves
nothing to do unless it fails. -/
theorem Remaining.of_cleansUp {k : Nat} (hk : Remaining pre ns cfg env.choices.now k pass.before)
    (hread : getState pre ns env.readOrder pass.before = .ok state) (h : CleansUp pre ns cfg env state pass) :
    ∃ k' ≤ k, (pass.cleanupErr = none → k' < k) ∧ Remaining pre ns cfg env.choices.now k' pass.after := by
  obtain ⟨executorID, hstale⟩ := h.stale
  have hnotstill : ¬Still cfg env.choices.now state := by
    rintro (hidle | ⟨current, hsettled, -⟩)
    · exact (hidle executorID).2 hstale
    · exact hsettled.fresh executorID hstale
  match k with
  | 0 => exact absurd (hk _ _ hread) hnotstill
  | 1 =>
    obtain ⟨current, hsettled⟩ := (hk _ _ hread).resolve_left hnotstill
    exact absurd hstale (hsettled.fresh executorID)
  | k + 2 =>
    by_cases herr : pass.cleanupErr = none
    · refine ⟨0, Nat.zero_le _, fun _ => Nat.succ_pos _, fun order' state' hread' => .inl fun executorID => ?_⟩
      obtain ⟨removed, -, hall, hsweeps, -⟩ := h.removes
      have houtlives := hsweeps.outlives hread hread'
      rw [hall herr] at houtlives
      exact ⟨fun hassignable => h.idle executorID (houtlives.assignable_before hassignable), houtlives.fresh executorID⟩
    · exact ⟨k + 2, le_rfl, fun hnone => absurd hnone herr, trivial⟩

omit [LawfulFloat64 F] [DecidableEq F] in
/-- An assignment without moves lowers the bound. -/
theorem Remaining.of_assigns {k : Nat} (hk : Remaining pre ns cfg env.choices.now k pass.before)
    (hread : getState pre ns env.readOrder pass.before = .ok state) {p : process.Planned} {shards available : List String}
    (h : Assigns pre ns cfg env state pass p shards available) (hmoves : pass.moves = []) :
    ∃ k' < k, Remaining pre ns cfg env.choices.now k' pass.after := by
  have hnomoves : p.loadBalanceMoves = [] := h.moves.trans hmoves
  have hnotstill : ¬Still cfg env.choices.now state := by
    rintro (hidle | ⟨current, hcurrent, hfull⟩)
    · obtain ⟨executorID, hassignable⟩ := h.active
      exact (hidle executorID).1 hassignable
    · exact hcurrent.not_hasOperations h.allots (hcurrent.current_of_full h.allots hfull hnomoves) h.hasOperations
  match k with
  | 0 => exact absurd (hk _ _ hread) hnotstill
  | 1 =>
    obtain ⟨current, hcurrent⟩ := (hk _ _ hread).resolve_left hnotstill
    rcases hcurrent.current_cases h.allots hnomoves with hkept | hfull
    · exact absurd h.hasOperations (hcurrent.not_hasOperations h.allots hkept)
    · exact ⟨0, Nat.one_pos, fun order' state' hread' => .inr ⟨_, h.settled order' state' hread', hfull⟩⟩
  | k + 2 => exact ⟨1, by omega, fun order' state' hread' => .inr ⟨_, h.settled order' state' hread'⟩⟩

/-- With the configuration, the clock, the heartbeats and the drains fixed and
no load to move, rebalancing reaches a fixed point: whatever the namespace
stores, of any number of passes that return no error, leave aside those whose
cleanup fails; at most two of the others change an assignment record or remove
an executor, and the rest send no write. Visiting orders, random starts, guards,
batch sizes and lost statistics updates are arbitrary. -/
theorem at_most_two_passes_change (pre ns : String) (cfg : process.Config F) (now : Time) (s : Store (Value F))
    (envs : List (Environment F)) (trace : List (Pass F)) (h : passes pre ns cfg envs s = some trace)
    (hnow : ∀ env ∈ envs, env.choices.now = now) (hmoves : ∀ pass ∈ trace, pass.moves = []) :
    (∀ changing : List (Pass F), changing.Sublist trace →
      (∀ pass ∈ changing, pass.cleanupErr = none ∧ pass.Changes pre ns) → changing.length ≤ 2) ∧
      ∀ pass ∈ trace, pass.cleanupErr = none → ¬pass.Changes pre ns →
        pass.after = pass.before ∧ pass.transactions = 0 := by
  refine passes_descend (fun pass => pass.moves = []) (Remaining pre ns cfg now) ?_ ?_ (k := 2) trivial h hnow hmoves
  · rintro k env pass state rfl hk hread hcleans
    exact hk.of_cleansUp hread hcleans
  · rintro k env pass state p shards available rfl hmoves hk hread hassigns
    exact hk.of_assigns hread hassigns hmoves

end Converge

section Examples

/-- The first pass gives the missing shard to `a`, the second one takes a shard
from `a` to `b`, the third one finds nothing to do. -/
theorem halfAssigned_settles :
    ∃ trace, passes "/shards" "orders" twoShards (List.replicate 3 exampleEnvironment) halfAssigned = some trace ∧
      trace.map (·.transactions) = [1, 1, 0] ∧ (∀ pass ∈ trace, pass.cleanupErr = none) ∧
      ∀ changing : List (Pass ExactFloat), changing.Sublist trace →
        (∀ pass ∈ changing, pass.cleanupErr = none ∧ pass.Changes "/shards" "orders") → changing.length ≤ 2 := by
  have heval : (passes "/shards" "orders" twoShards (List.replicate 3 exampleEnvironment) halfAssigned).map
      (fun trace => decide (trace.map (·.transactions) = [1, 1, 0] ∧ (∀ pass ∈ trace, pass.cleanupErr = none) ∧
        ∀ pass ∈ trace, pass.moves.length = 0)) = some true := by
    decide +kernel
  obtain ⟨trace, htrace, hfacts⟩ := Option.map_eq_some_iff.mp heval
  obtain ⟨htransactions, herr, hmoves⟩ := of_decide_eq_true hfacts
  refine ⟨trace, htrace, htransactions, herr, ?_⟩
  refine (at_most_two_passes_change "/shards" "orders" twoShards 2 halfAssigned _ trace htrace ?_ ?_).1
  · exact fun env henv => (List.eq_of_mem_replicate henv) ▸ rfl
  · exact fun pass hpass => List.length_eq_zero_iff.mp (hmoves pass hpass)

/-- Three executors that have not been heard of for long. -/
def threeStale : Store (Value ExactFloat) :=
  (Txn.flat [] [
    .put (buildExecutorKey "/shards" "orders" "a" .heartbeat) (.time 1),
    .put (buildExecutorKey "/shards" "orders" "b" .heartbeat) (.time 1),
    .put (buildExecutorKey "/shards" "orders" "c" .heartbeat) (.time 1)] []).next .empty

/-- A pass with a batch for every executor, some of which fail. -/
def cleanupEnvironment (deleteFates : List Fate) : Environment ExactFloat :=
  { exampleEnvironment with
    choices := { process.firstChoices with now := 100 }
    maxEtcdTxnOps := 3
    deleteFates }

/-- The first two passes lose their second batch. -/
def lossyCleanups : List (Environment ExactFloat) :=
  [cleanupEnvironment [.delivered, .refused], cleanupEnvironment [.delivered, .refused],
    cleanupEnvironment [.delivered]]

/-- The error of a failed cleanup is only logged, so three passes that return no
error can remove an executor each. -/
theorem three_passes_remove :
    ∃ trace, passes "/shards" "orders" twoShards lossyCleanups threeStale = some trace ∧
      (∀ env ∈ lossyCleanups, env.choices.now = 100) ∧ (∀ pass ∈ trace, pass.moves = []) ∧ trace.length = 3 ∧
      ∀ pass ∈ trace, pass.Changes "/shards" "orders" := by
  have heval : (passes "/shards" "orders" twoShards lossyCleanups threeStale).map (fun trace =>
      decide ((∀ pass ∈ trace, pass.moves.length = 0) ∧ trace.length = 3 ∧
        ∀ pass ∈ trace, ∃ executorID ∈ ["a", "b", "c"],
          (storedExecutor "/shards" "orders" pass.before executorID).isSome = true ∧
            (storedExecutor "/shards" "orders" pass.after executorID).isSome = false)) = some true := by
    decide +kernel
  obtain ⟨trace, htrace, hfacts⟩ := Option.map_eq_some_iff.mp heval
  obtain ⟨hmoves, hlength, hremoved⟩ := of_decide_eq_true hfacts
  refine ⟨trace, htrace, by decide, fun pass hpass => List.length_eq_zero_iff.mp (hmoves pass hpass), hlength, ?_⟩
  intro pass hpass
  obtain ⟨executorID, -, hbefore, hafter⟩ := hremoved pass hpass
  exact .inr ⟨executorID, hbefore, Option.isSome_eq_false_iff.mp hafter |> Option.isNone_iff_eq_none.mp⟩

end Examples

end leader
