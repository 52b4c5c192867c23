import ShardManager.Process.Planning

open golang store plan types

namespace process

variable {F : Type}

/-- The assignments have exactly the given executors as keys and hold exactly
the given shards, counting repetitions. -/
structure Distributes (current : ListMap String String) (executors : String → Prop)
    (shards : List String) : Prop where
  keys : ∀ executorID, executorID ∈ current ↔ executors executorID
  perm : (ListMap.elements current).Perm shards

namespace Distributes

variable {current : ListMap String String} {executors : String → Prop} {shards : List String}

theorem push (h : Distributes current executors shards) {executorID : String}
    (hexecutor : executors executorID) (shardID : String) :
    Distributes (ListMap.push current executorID shardID) executors (shardID :: shards) where
  keys := by
    intro e
    rw [ListMap.push, Map.mem_insert_iff_of_mem ((h.keys _).mpr hexecutor)]
    exact h.keys e
  perm := (ListMap.elements_push_perm current executorID shardID).trans (h.perm.cons shardID)

/-- Taking a shard out of one list and appending it to another. -/
theorem move (h : Distributes current executors shards) {source destination shardID : String}
    {rest : List String} (hsource : (ListMap.index current source).Perm (shardID :: rest))
    (hdestination : executors destination) :
    Distributes (ListMap.push (current.insert source rest) destination shardID) executors shards := by
  have hmem : source ∈ current := by
    have hlookup := ListMap.lookup_of_mem_index (hsource.mem_iff.mpr List.mem_cons_self)
    exact Map.mem_iff_exists_lookup.mpr ⟨_, hlookup⟩
  have hkeys : ∀ e, e ∈ current.insert source rest ↔ executors e := by
    intro e
    rw [Map.mem_insert_iff_of_mem hmem]
    exact h.keys e
  have hpush := Distributes.push ⟨hkeys, List.Perm.refl _⟩ hdestination shardID
  exact ⟨hpush.keys, (hpush.perm.trans (ListMap.elements_perm_of_index_perm hsource).symm).trans h.perm⟩

end Distributes

section Moves

theorem applyMove_distributes {current current' : ListMap String String} {executors : String → Prop}
    {shards : List String} (h : Distributes current executors shards) {move : Move}
    (hto : executors move.toID) (happly : applyMove current move = .ok current') :
    Distributes current' executors shards := by
  unfold applyMove at happly
  dsimp only at happly
  split at happly
  · cases happly
  · rename_i idx hidx
    cases happly
    refine h.move (perm_swapRemove ?_) hto
    obtain ⟨hlt, hget, -⟩ := List.idxOf?_eq_some_iff.mp hidx
    simp [hlt, hget]

theorem applyMoves_distributes {current current' : ListMap String String} {executors : String → Prop}
    {shards : List String} (h : Distributes current executors shards) {moves : List Move}
    (hto : ∀ move ∈ moves, executors move.toID) (happly : applyMoves current moves = .ok current') :
    Distributes current' executors shards := by
  induction moves generalizing current with
  | nil =>
    cases happly
    exact h
  | cons move rest ih =>
    rw [applyMoves, List.foldlM_cons] at happly
    obtain ⟨next, hnext, hrest⟩ := bind_eq_ok_iff.mp happly
    refine ih (applyMove_distributes h (hto move List.mem_cons_self) hnext) ?_ hrest
    exact fun m hm => hto m (List.mem_cons_of_mem _ hm)

end Moves

section EmptyExecutors

theorem stealShard_distributes {current current' : ListMap String String} {executors : String → Prop}
    {shards donors : List String} (h : Distributes current executors shards) {round : String × Nat}
    (hround : executors round.1) (hsteal : stealShard donors current round = .ok current') :
    Distributes current' executors shards := by
  unfold stealShard at hsteal
  dsimp only at hsteal
  split at hsteal
  · cases hsteal
  · rename_i stolen rest hindex
    cases hsteal
    refine h.move ?_ hround
    rw [hindex]

theorem foldlM_stealShard_distributes {executors : String → Prop} {shards donors : List String}
    {rounds : List (String × Nat)} (hrounds : ∀ round ∈ rounds, executors round.1)
    {current current' : ListMap String String} (h : Distributes current executors shards)
    (hfold : rounds.foldlM (stealShard donors) current = .ok current') :
    Distributes current' executors shards := by
  induction rounds generalizing current with
  | nil =>
    cases hfold
    exact h
  | cons round rest ih =>
    rw [List.foldlM_cons] at hfold
    obtain ⟨next, hnext, hrest⟩ := bind_eq_ok_iff.mp hfold
    refine ih (fun r hr => hrounds r (List.mem_cons_of_mem _ hr)) ?_ hrest
    exact stealShard_distributes h (hrounds round List.mem_cons_self) hnext

theorem assignShardsToEmptyExecutors_distributes {current current' : ListMap String String}
    {executors : String → Prop} {shards : List String} (h : Distributes current executors shards)
    {changed : Bool} (hassign : assignShardsToEmptyExecutors current = .ok (changed, current')) :
    Distributes current' executors shards := by
  unfold assignShardsToEmptyExecutors at hassign
  dsimp only at hassign
  split at hassign
  · cases hassign
    exact h
  · obtain ⟨next, hnext, hassign⟩ := bind_eq_ok_iff.mp hassign
    cases hassign
    refine foldlM_stealShard_distributes ?_ h hnext
    intro round hround
    have hfst := List.mem_map_of_mem (f := Prod.fst) hround
    rw [List.zipIdx_map_fst, List.mem_flatten] at hfst
    obtain ⟨l, hl, hmem⟩ := hfst
    rw [List.eq_of_mem_replicate hl] at hmem
    have hkey := (List.perm_insertionSort _ _).mem_iff.mp (List.mem_filter.mp hmem).1
    exact (h.keys _).mp hkey

/-- With no empty executor there is nothing to do. -/
theorem assignShardsToEmptyExecutors_of_nonempty {current : ListMap String String}
    (h : ∀ executorID ∈ current, ListMap.index current executorID ≠ []) :
    assignShardsToEmptyExecutors current = .ok (false, current) := by
  have hempty : (current.keys.insertionSort (· ≤ ·)).filter
      (fun executorID => decide ((ListMap.index current executorID).length = 0)) = [] := by
    rw [List.filter_eq_nil_iff]
    intro executorID hmem
    have hkey : executorID ∈ current := (List.perm_insertionSort _ _).mem_iff.mp hmem
    simpa using h executorID hkey
  unfold assignShardsToEmptyExecutors
  rw [if_pos (Or.inl hempty)]

end EmptyExecutors

section RoundRobin

theorem updateAssignments_distributes {current : ListMap String String} {active : List String}
    {shards : List String} (hactive : active ≠ []) (h : Distributes current (· ∈ active) shards)
    (randomStart : Nat) (shardsToReassign : List String) :
    Distributes (updateAssignments randomStart shardsToReassign active current).2 (· ∈ active)
      (shardsToReassign ++ shards) := by
  unfold updateAssignments
  split
  · rename_i hnil
    rw [hnil]
    exact h
  · suffices hfold : ∀ (l : List (String × Nat)) (current : ListMap String String) (shards : List String),
        Distributes current (· ∈ active) shards →
        Distributes (l.foldl (fun current entry => ListMap.push current
          (active.getD ((randomStart + entry.2) % active.length) "") entry.1) current) (· ∈ active)
          (l.map Prod.fst ++ shards) by
      have hall := hfold shardsToReassign.zipIdx current shards h
      rw [List.zipIdx_map_fst] at hall
      exact hall
    intro l
    induction l with
    | nil => exact fun _ _ h => h
    | cons entry rest ih =>
      intro current shards h
      have hlt : (randomStart + entry.2) % active.length < active.length :=
        Nat.mod_lt _ (List.length_pos_of_ne_nil hactive)
      have hmem : active.getD ((randomStart + entry.2) % active.length) "" ∈ active := by
        rw [List.getD_eq_getElem?_getD, List.getElem?_eq_getElem hlt, Option.getD_some]
        exact List.getElem_mem hlt
      have hstep := ih _ _ (h.push hmem entry.1)
      exact ⟨hstep.keys, hstep.perm.trans List.perm_middle⟩

theorem mem_updateAssignments {current : ListMap String String} (randomStart : Nat)
    (shardsToReassign active : List String) {executorID shardID : String} (h : shardID ∈ ListMap.index current executorID) :
    shardID ∈ ListMap.index (updateAssignments randomStart shardsToReassign active current).2 executorID := by
  unfold updateAssignments
  split
  · exact h
  · refine List.foldlRecOn (motive := fun m : ListMap String String => shardID ∈ ListMap.index m executorID)
      _ _ h ?_
    intro m hm entry _
    rw [ListMap.index_push]
    split
    · rename_i heq
      exact List.mem_append_left _ (heq ▸ hm)
    · exact hm

end RoundRobin

section Reassign

theorem mem_storedAssignments {order : RangeOrder} {state : NamespaceState F} {executorID shardID : String} :
    (executorID, shardID) ∈ storedAssignments order state ↔ state.Stores executorID shardID := by
  simp only [storedAssignments, List.mem_flatMap, Prod.exists, RangeOrder.mem_range_iff, List.mem_map,
    Prod.mk.injEq, NamespaceState.stores_iff, RangeOrder.mem_rangeKeys]
  constructor
  · rintro ⟨e, assigned, hlookup, shard, hshard, rfl, rfl⟩
    exact ⟨assigned, hlookup, hshard⟩
  · rintro ⟨assigned, hlookup, hshard⟩
    exact ⟨executorID, assigned, hlookup, shardID, hshard, rfl, rfl⟩

/-- The state of the scan after the stored assignments `seen`. -/
structure Reassignment.Inv (assignable : KeySet String) (available : List String)
    (seen : List (String × String)) (r : Reassignment) : Prop where
  keys : ∀ executorID, executorID ∈ r.currentAssignments ↔ executorID ∈ assignable
  perm : (r.shardsToReassign ++ ListMap.elements r.currentAssignments ++
    r.allAvailableShards.keys).Perm available
  current_seen : ∀ {executorID shardID}, shardID ∈ ListMap.index r.currentAssignments executorID →
    (executorID, shardID) ∈ seen
  reassign_seen : ∀ {shardID}, shardID ∈ r.shardsToReassign →
    ∃ executorID, executorID ∉ assignable ∧ (executorID, shardID) ∈ seen
  available_unseen : ∀ {executorID shardID}, shardID ∈ r.allAvailableShards →
    (executorID, shardID) ∉ seen

theorem keys_perm_erase {available : KeySet String} {shardID : String} (h : shardID ∈ available) :
    available.keys.Perm (shardID :: (available.erase shardID).keys) := by
  rw [AList.keys_erase]
  exact List.perm_cons_erase (AList.mem_keys.mp h)

theorem Reassignment.visit_inv {assignable : KeySet String} {available : List String}
    {seen : List (String × String)} {r : Reassignment} (h : r.Inv assignable available seen)
    (stored : String × String) :
    (r.visit assignable stored).Inv assignable available (seen ++ [stored]) := by
  obtain ⟨executorID, shardID⟩ := stored
  unfold Reassignment.visit
  dsimp only
  by_cases havailable : shardID ∈ r.allAvailableShards
  · rw [if_pos havailable]
    have herase := keys_perm_erase havailable
    have hunseen : ∀ {e s}, s ∈ r.allAvailableShards.erase shardID →
        (e, s) ∉ seen ++ [(executorID, shardID)] := by
      intro e s hs
      rw [AList.mem_erase] at hs
      simp only [List.mem_append, List.mem_singleton, Prod.mk.injEq, not_or, not_and]
      exact ⟨h.available_unseen hs.2, fun _ => hs.1⟩
    by_cases hassignable : executorID ∈ assignable
    · rw [if_pos hassignable]
      refine ⟨?_, ?_, ?_, ?_, hunseen⟩
      · intro e
        rw [ListMap.push, Map.mem_insert_iff_of_mem ((h.keys _).mpr hassignable)]
        exact h.keys e
      · refine List.Perm.trans ?_ h.perm
        have hpush := ListMap.elements_push_perm r.currentAssignments executorID shardID
        have hleft := (hpush.append_left r.shardsToReassign).append_right
          (r.allAvailableShards.erase shardID).keys
        refine hleft.trans ?_
        have hright := herase.append_left (r.shardsToReassign ++ ListMap.elements r.currentAssignments)
        refine List.Perm.trans ?_ hright.symm
        simp only [List.append_assoc, List.cons_append]
        exact (List.perm_middle.symm).append_left _
      · intro e s hs
        dsimp only at hs
        rw [ListMap.index_push] at hs
        split at hs
        · rename_i heq
          rcases List.mem_append.mp hs with hold | hnew
          · exact List.mem_append_left _ (heq ▸ h.current_seen hold)
          · rw [List.mem_singleton] at hnew
            simp [heq, hnew]
        · exact List.mem_append_left _ (h.current_seen hs)
      · intro s hs
        obtain ⟨e, he, hseen⟩ := h.reassign_seen hs
        exact ⟨e, he, List.mem_append_left _ hseen⟩
    · rw [if_neg hassignable]
      refine ⟨h.keys, ?_, ?_, ?_, hunseen⟩
      · refine List.Perm.trans ?_ h.perm
        have hright := herase.append_left (r.shardsToReassign ++ ListMap.elements r.currentAssignments)
        refine List.Perm.trans ?_ hright.symm
        simp only [List.append_assoc, List.cons_append, List.nil_append]
        exact (List.perm_middle.symm).append_left _
      · exact fun hs => List.mem_append_left _ (h.current_seen hs)
      · intro s hs
        rcases List.mem_append.mp hs with hold | hnew
        · obtain ⟨e, he, hseen⟩ := h.reassign_seen hold
          exact ⟨e, he, List.mem_append_left _ hseen⟩
        · rw [List.mem_singleton] at hnew
          exact ⟨executorID, hassignable, by simp [hnew]⟩
  · rw [if_neg havailable]
    refine ⟨h.keys, h.perm, fun hs => List.mem_append_left _ (h.current_seen hs), ?_, ?_⟩
    · intro s hs
      obtain ⟨e, he, hseen⟩ := h.reassign_seen hs
      exact ⟨e, he, List.mem_append_left _ hseen⟩
    · intro e s hs
      simp only [List.mem_append, List.mem_singleton, Prod.mk.injEq, not_or, not_and]
      exact ⟨h.available_unseen hs, fun _ heq => havailable (heq ▸ hs)⟩

theorem Reassignment.foldl_inv {assignable : KeySet String} {available : List String}
    {seen : List (String × String)} {r : Reassignment} (h : r.Inv assignable available seen)
    (stored : List (String × String)) :
    (stored.foldl (Reassignment.visit assignable) r).Inv assignable available (seen ++ stored) := by
  induction stored generalizing seen r with
  | nil => simpa using h
  | cons entry rest ih =>
    have hstep := ih (Reassignment.visit_inv h entry)
    rwa [List.append_assoc, List.singleton_append] at hstep

/-- What `findShardsToReassign` returns: every available shard is either kept
by an assignable executor that stores it or returned for reassignment, and the
latter are stored only under other executors, if at all. -/
structure FoundShards (state : NamespaceState F) (assignable : KeySet String) (available : List String)
    (shardsToReassign : List String) (current : ListMap String String) : Prop where
  keys : ∀ executorID, executorID ∈ current ↔ executorID ∈ assignable
  perm : (shardsToReassign ++ ListMap.elements current).Perm available
  nodup : available.Nodup
  stores_of_kept : ∀ {executorID shardID}, shardID ∈ ListMap.index current executorID →
    state.Stores executorID shardID
  of_reassigned : ∀ {shardID}, shardID ∈ shardsToReassign →
    (∃ executorID, executorID ∉ assignable ∧ state.Stores executorID shardID) ∨
      ∀ executorID, ¬state.Stores executorID shardID

theorem Reassignment.index_start (assignable available : KeySet String) (executorID : String) :
    ListMap.index (Reassignment.start assignable available).currentAssignments executorID = [] := by
  by_cases hmem : executorID ∈ assignable
  · refine ListMap.index_of_lookup (Map.lookup_foldl_insert_of_mem _ _ ?_ ?_)
    · simpa [Function.comp_def] using assignable.keys_nodup
    · exact List.mem_map.mpr ⟨executorID, AList.mem_keys.mp hmem, rfl⟩
  · refine ListMap.index_of_not_mem ?_
    rw [Reassignment.start, Map.mem_ofList]
    simpa [← AList.mem_keys] using hmem

theorem Reassignment.start_inv (assignable available : KeySet String) :
    (Reassignment.start assignable available).Inv assignable available.keys [] := by
  have helements :
      ListMap.elements (Reassignment.start assignable available).currentAssignments = [] := by
    rw [List.eq_nil_iff_forall_not_mem]
    intro shardID hmem
    obtain ⟨executorID, hindex⟩ := ListMap.mem_elements.mp hmem
    rw [Reassignment.index_start] at hindex
    cases hindex
  refine ⟨?_, ?_, ?_, by simp [Reassignment.start], by simp⟩
  · intro executorID
    rw [Reassignment.start, Map.mem_ofList]
    simp [← AList.mem_keys]
  · rw [helements]
    exact List.Perm.refl _
  · intro executorID shardID hmem
    rw [Reassignment.index_start] at hmem
    cases hmem

theorem findShardsToReassign_ok {order : RangeOrder} {cfg : config.Namespace} {assignable : KeySet String}
    {state : NamespaceState F} {deletedShards : Map String ShardState} {shardsToReassign : List String}
    {current : ListMap String String}
    (h : findShardsToReassign order cfg assignable state deletedShards = .ok (shardsToReassign, current)) :
    ∃ shards available, getShards order cfg state deletedShards = .ok shards ∧
      (∀ shardID, shardID ∈ available ↔ shardID ∈ shards ∧ state.isShardDrained shardID = false) ∧
      FoundShards state assignable available shardsToReassign current := by
  obtain ⟨shards, hshards, h⟩ := bind_eq_ok_iff.mp h
  let available : KeySet String := Map.ofList
    ((shards.filter fun shardID => !state.isShardDrained shardID).map fun shardID => (shardID, ()))
  have hinv := Reassignment.foldl_inv (Reassignment.start_inv assignable available)
    (storedAssignments order state)
  rw [List.nil_append] at hinv
  refine ⟨shards, available.keys, hshards, ?_, ?_⟩
  · intro shardID
    rw [← AList.mem_keys, Map.mem_ofList]
    simp
  · cases h
    refine ⟨hinv.keys, ?_, available.keys_nodup, ?_, ?_⟩
    · refine List.Perm.trans ?_ hinv.perm
      rw [List.append_assoc, List.append_assoc]
      refine List.Perm.append_left _ ?_
      exact (List.Perm.append_right _ (order.rangeKeys_perm _ _)).trans List.perm_append_comm
    · exact fun hkept => mem_storedAssignments.mp (hinv.current_seen hkept)
    · intro shardID hmem
      rcases List.mem_append.mp hmem with hreassigned | hleft
      · obtain ⟨executorID, hnot, hseen⟩ := hinv.reassign_seen hreassigned
        exact .inl ⟨executorID, hnot, mem_storedAssignments.mp hseen⟩
      · right
        intro executorID hstores
        exact hinv.available_unseen (RangeOrder.mem_rangeKeys.mp hleft) (mem_storedAssignments.mpr hstores)

end Reassign

end process
