import ShardManager.LoadBalancer.Greedy

open golang golang.Float64 store plan

namespace loadbalancer

variable {F : Type}

inductive Mode where
  | invalid
  | naive
  | greedy
deriving DecidableEq, Repr

def Mode.name : Mode → String
  | .invalid => "LoadBalancingModeINVALID"
  | .naive => "LoadBalancingModeNAIVE"
  | .greedy => "LoadBalancingModeGREEDY"

/-- The load-balancing part of the dynamic configuration of one namespace. -/
structure Config (F : Type) where
  mode : Mode
  maxDeviation : F
  greedy : greedy.Config F

def unsupportedMode (mode : Mode) : Failure :=
  .error ("unsupported load balancing mode: " ++ mode.name)

/-- The unique shard IDs, in the order they are first seen. -/
def dedupeShardIDs (shardIDs : List String) : List String :=
  shardIDs.foldl (fun unique shardID => if shardID ∈ unique then unique else unique ++ [shardID]) []

variable [Float64 F]

def planInitialPlacement (order : RangeOrder) (cfg : Config F) (state : NamespaceState F)
    (shardIDs : List String) : Except Failure (List Placement) :=
  let shardIDs := dedupeShardIDs shardIDs
  match cfg.mode with
  | .naive => naive.planInitialPlacement order state shardIDs
  | .greedy => greedy.planInitialPlacement order state shardIDs
  | .invalid => .error (unsupportedMode cfg.mode)

def planRebalance (order : RangeOrder) (cfg : Config F) (state : NamespaceState F)
    (currentAssignments : ListMap String String) (now : Time) : Except Failure (List Move) :=
  match cfg.mode with
  | .naive => .ok (naive.planRebalance order cfg.maxDeviation state currentAssignments)
  | .greedy => greedy.planRebalance order cfg.greedy state currentAssignments now
  | .invalid => .error (unsupportedMode cfg.mode)

omit [Float64 F] in
theorem dedupeShardIDs_spec (shardIDs : List String) :
    (dedupeShardIDs shardIDs).Nodup ∧ ∀ shardID, shardID ∈ dedupeShardIDs shardIDs ↔ shardID ∈ shardIDs := by
  suffices hfold : ∀ (l unique : List String), unique.Nodup →
      (l.foldl (fun unique shardID => if shardID ∈ unique then unique else unique ++ [shardID]) unique).Nodup ∧
      ∀ shardID, shardID ∈ l.foldl
        (fun unique shardID => if shardID ∈ unique then unique else unique ++ [shardID]) unique ↔
          shardID ∈ unique ∨ shardID ∈ l by
    have h := hfold shardIDs [] List.nodup_nil
    exact ⟨h.1, fun shardID => by simpa [dedupeShardIDs] using h.2 shardID⟩
  intro l
  induction l with
  | nil => simp
  | cons shardID rest ih =>
    intro unique hnodup
    rw [List.foldl_cons]
    by_cases hseen : shardID ∈ unique
    · rw [if_pos hseen]
      refine ⟨(ih unique hnodup).1, fun id => ?_⟩
      rw [(ih unique hnodup).2, List.mem_cons]
      constructor
      · tauto
      · rintro (h | rfl | h) <;> tauto
    · rw [if_neg hseen]
      have hnodup' : (unique ++ [shardID]).Nodup := by
        rw [List.nodup_append]
        exact ⟨hnodup, List.nodup_singleton _, by rintro a ha b hb rfl; simp_all⟩
      refine ⟨(ih _ hnodup').1, fun id => ?_⟩
      rw [(ih _ hnodup').2]
      simp [or_assoc]

theorem planInitialPlacement_placed {order : RangeOrder} {cfg : Config F} {state : NamespaceState F}
    {shardIDs : List String} {placements : List Placement}
    (h : planInitialPlacement order cfg state shardIDs = .ok placements) :
    placements.map Placement.shardID = dedupeShardIDs shardIDs ∧
      ∀ p ∈ placements, state.Assignable ∅ p.executorID := by
  unfold planInitialPlacement at h
  dsimp only at h
  split at h
  · exact naive.planInitialPlacement_ok h
  · exact greedy.planInitialPlacement_ok h
  · cases h

/-- Each requested shard is placed on exactly one executor, an assignable one. -/
theorem planInitialPlacement_ok {order : RangeOrder} {cfg : Config F} {state : NamespaceState F}
    {shardIDs : List String} {placements : List Placement}
    (h : planInitialPlacement order cfg state shardIDs = .ok placements) :
    (placements.map Placement.shardID).Nodup ∧
      (∀ shardID, shardID ∈ placements.map Placement.shardID ↔ shardID ∈ shardIDs) ∧
      ∀ p ∈ placements, state.Assignable ∅ p.executorID := by
  obtain ⟨hnodup, hmem⟩ := dedupeShardIDs_spec shardIDs
  obtain ⟨hshards, hassignable⟩ := planInitialPlacement_placed h
  rw [hshards]
  exact ⟨hnodup, hmem, hassignable⟩

theorem planRebalance_toID [LawfulFloat64 F] {order : RangeOrder} {cfg : Config F}
    {state : NamespaceState F} {assignments : ListMap String String} {now : Time} {moves : List Move}
    (h : planRebalance order cfg state assignments now = .ok moves) :
    ∀ move ∈ moves, move.toID ∈ assignments := by
  unfold planRebalance at h
  split at h
  · cases h
    exact fun move hmove => naive.planRebalance_toID hmove
  · exact greedy.planRebalance_toID h
  · cases h

end loadbalancer
