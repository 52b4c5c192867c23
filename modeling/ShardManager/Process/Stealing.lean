import ShardManager.Process.Passes
import Mathlib.Algebra.Order.Ring.Nat
import Mathlib.Data.List.GetD

open golang store

namespace process

section Donors

/-- The rounds among the first `rounds` in which donor `i` of `donors` gives a
shard away, when they take turns. -/
def turns (donors i rounds : Nat) : Nat := (rounds + (donors - 1 - i)) / donors

theorem turns_zero {donors i : Nat} (hi : i < donors) : turns donors i 0 = 0 :=
  Nat.div_eq_of_lt (by omega)

theorem turns_succ {donors i : Nat} (hi : i < donors) (rounds : Nat) :
    turns donors i (rounds + 1) = turns donors i rounds + if rounds % donors = i then 1 else 0 := by
  have hsucc : turns donors i (rounds + 1) = (rounds + (donors - 1 - i) + 1) / donors := by
    rw [turns, Nat.add_right_comm]
  have hturn : donors ∣ rounds + (donors - 1 - i) + 1 ↔ rounds % donors = i := by
    have hshift : rounds + (donors - 1 - i) + 1 = rounds + (donors - i) := by omega
    rw [hshift, Nat.dvd_iff_mod_eq_zero]
    constructor
    · intro hmod
      have hsum : (rounds + (donors - i) + i) % donors = i := by
        rw [Nat.add_mod, hmod, Nat.zero_add, Nat.mod_mod, Nat.mod_eq_of_lt hi]
      rwa [Nat.add_assoc, Nat.sub_add_cancel hi.le, Nat.add_mod_right] at hsum
    · intro hmod
      rw [Nat.add_mod, hmod]
      by_cases hzero : i = 0
      · rw [hzero, Nat.sub_zero, Nat.mod_self, Nat.zero_add, Nat.zero_mod]
      · rw [Nat.mod_eq_of_lt (by omega : donors - i < donors), Nat.add_sub_cancel' hi.le, Nat.mod_self]
  rw [hsucc, Nat.succ_div, turns]
  simp only [hturn]

theorem turns_mono (donors i : Nat) {rounds rounds' : Nat} (h : rounds ≤ rounds') :
    turns donors i rounds ≤ turns donors i rounds' :=
  Nat.div_le_div_right (by omega)

/-- As many rounds as the stealing step makes leave every donor as much as an
empty executor gets: this is what its division by the number of executors is
for. -/
theorem turns_add_le {donors i empties least share : Nat} (hi : i < donors)
    (hshare : share = least * donors / (donors + empties)) : turns donors i (share * empties) + share ≤ least := by
  have hmul : share * donors + share * empties ≤ least * donors := by
    rw [← Nat.mul_add, hshare]
    exact Nat.div_mul_le_self _ _
  have hle : share ≤ least := Nat.le_of_mul_le_mul_right (by omega : share * donors ≤ least * donors) (by omega)
  have hlt : turns donors i (share * empties) < least - share + 1 := by
    rw [turns, Nat.div_lt_iff_lt_mul (by omega), Nat.add_mul, Nat.sub_mul]
    omega
  omega

end Donors

section Steal

variable {donors : List String} {current current' : ListMap String String}

/-- A round in which the donor still has a shard takes the first one of its
list and gives it to the receiver. -/
theorem exists_stealShard (hnodup : donors.Nodup) {receiver : String} (hreceiver : receiver ∉ donors) {round : Nat}
    (hlt : round % donors.length < donors.length) (hshard : ListMap.index current donors[round % donors.length] ≠ []) :
    ∃ next, stealShard donors current (receiver, round) = .ok next ∧
      (∀ i (hi : i < donors.length), ListMap.index next donors[i] =
        (ListMap.index current donors[i]).drop (if round % donors.length = i then 1 else 0)) ∧
      ∀ executorID ∉ donors, (ListMap.index next executorID).length =
        (ListMap.index current executorID).length + if receiver = executorID then 1 else 0 := by
  obtain ⟨stolen, rest, hindex⟩ := List.exists_cons_of_ne_nil hshard
  refine ⟨ListMap.push (current.insert donors[round % donors.length] rest) receiver stolen, ?_, ?_, ?_⟩
  · rw [stealShard, List.getD_eq_getElem _ _ hlt, hindex]
  · intro i hi
    have hother : donors[i] ≠ receiver := fun heq => hreceiver (heq ▸ List.getElem_mem hi)
    rw [ListMap.index_push, if_neg hother, ListMap.index_insert]
    by_cases hturn : round % donors.length = i
    · subst hturn
      rw [if_pos rfl, if_pos rfl, hindex, List.drop_one, List.tail_cons]
    · have hdonor : donors[i] ≠ donors[round % donors.length] := fun heq => hturn (hnodup.getElem_inj_iff.mp heq).symm
      rw [if_neg hdonor, if_neg hturn, List.drop_zero]
  · intro executorID hexecutor
    have hkept : ∀ e ∉ donors, ListMap.index (current.insert donors[round % donors.length] rest) e =
        ListMap.index current e := by
      intro e he
      have hdonor : e ≠ donors[round % donors.length] := fun heq => he (heq ▸ List.getElem_mem hlt)
      rw [ListMap.index_insert, if_neg hdonor]
    rw [ListMap.index_push, hkept receiver hreceiver, hkept executorID hexecutor]
    by_cases hreceives : executorID = receiver
    · rw [if_pos hreceives, if_pos hreceives.symm, hreceives, List.length_append, List.length_singleton]
    · rw [if_neg hreceives, if_neg (Ne.symm hreceives), Nat.add_zero]

/-- As long as no donor gives more often than it has shards, all rounds
succeed, and each donor has lost the front of its list. -/
theorem exists_stealShards (hnodup : donors.Nodup) (hne : donors ≠ []) {receivers : List String}
    (hreceivers : ∀ receiver ∈ receivers, receiver ∉ donors) {start : Nat}
    (henough : ∀ i (hi : i < donors.length), turns donors.length i (start + receivers.length) ≤
      turns donors.length i start + (ListMap.index current donors[i]).length) :
    ∃ final, (receivers.zipIdx start).foldlM (stealShard donors) current = .ok final ∧
      (∀ i (hi : i < donors.length), ListMap.index final donors[i] = (ListMap.index current donors[i]).drop
        (turns donors.length i (start + receivers.length) - turns donors.length i start)) ∧
      ∀ executorID ∉ donors, (ListMap.index final executorID).length =
        (ListMap.index current executorID).length + receivers.count executorID := by
  induction receivers generalizing start current with
  | nil => exact ⟨current, rfl, fun i hi => by simp, fun executorID _ => by simp⟩
  | cons receiver rest ih =>
    have hlt : start % donors.length < donors.length := Nat.mod_lt _ (List.length_pos_iff.mpr hne)
    have hlength : start + (receiver :: rest).length = start + 1 + rest.length := by
      rw [List.length_cons]
      omega
    rw [hlength] at henough ⊢
    -- The turn of the donor counts, so it has not given all its shards away.
    have hshard : ListMap.index current donors[start % donors.length] ≠ [] := by
      intro hnil
      have hturn := turns_succ hlt start
      have hmono := turns_mono donors.length (start % donors.length) (Nat.le_add_right (start + 1) rest.length)
      have hbound := henough _ hlt
      rw [hnil, List.length_nil] at hbound
      rw [if_pos rfl] at hturn
      omega
    obtain ⟨hfirst, hrest⟩ := List.forall_mem_cons.mp hreceivers
    obtain ⟨next, hnext, hdonors, hothers⟩ := exists_stealShard hnodup hfirst hlt hshard
    have hleft : ∀ i (hi : i < donors.length), turns donors.length i (start + 1 + rest.length) ≤
        turns donors.length i (start + 1) + (ListMap.index next donors[i]).length := by
      intro i hi
      have hturn := turns_succ hi start
      have hbound := henough i hi
      rw [hdonors i hi, List.length_drop]
      omega
    obtain ⟨final, hfinal, hdonors', hothers'⟩ := ih hrest hleft
    refine ⟨final, ?_, fun i hi => ?_, fun executorID hexecutor => ?_⟩
    · rw [List.zipIdx_cons, List.foldlM_cons, hnext]
      exact hfinal
    · have hturn := turns_succ hi start
      have hmono := turns_mono donors.length i (Nat.le_add_right (start + 1) rest.length)
      rw [hdonors' i hi, hdonors i hi, List.drop_drop]
      congr 1
      omega
    · rw [hothers' executorID hexecutor, hothers executorID hexecutor, List.count_cons]
      simp only [beq_iff_eq]
      omega

end Steal

section Shares

/-- The executors that have shards, which become donors. -/
def withShards (current : ListMap String String) : List String :=
  current.keys.filter fun executorID => ListMap.index current executorID ≠ []

def withoutShards (current : ListMap String String) : List String :=
  current.keys.filter fun executorID => ListMap.index current executorID = []

/-- The smallest number of shards among the executors that have some. -/
def leastShards (current : ListMap String String) : Nat :=
  ((withShards current).map fun executorID => (ListMap.index current executorID).length).min?.getD 0

/-- What each empty executor is to get. -/
def share (current : ListMap String String) : Nat :=
  leastShards current * (withShards current).length / ((withShards current).length + (withoutShards current).length)

/-- The minimum that the loop over the sorted executors keeps. -/
theorem foldl_least {executors : List String} {count : String → Nat} (hne : executors ≠ [])
    (hcount : ∀ executorID ∈ executors, count executorID ≠ 0) :
    (executors.map count).min? = some (executors.foldl (fun least executorID =>
      if least = 0 ∨ count executorID < least then count executorID else least) 0) := by
  obtain ⟨first, rest, rfl⟩ := List.exists_cons_of_ne_nil hne
  obtain ⟨hfirst, hrest⟩ := List.forall_mem_cons.mp hcount
  suffices hfold : ∀ least, least ≠ 0 → rest.foldl (fun least executorID =>
      if least = 0 ∨ count executorID < least then count executorID else least) least =
        (rest.map count).foldl min least by
    rw [List.map_cons, List.min?_cons', List.foldl_cons, if_pos (.inl rfl), hfold _ hfirst]
  clear hcount hne
  induction rest with
  | nil => exact fun _ _ => rfl
  | cons next rest ih =>
    intro least hleast
    obtain ⟨hnext, hrest⟩ := List.forall_mem_cons.mp hrest
    have hmin : (if least = 0 ∨ count next < least then count next else least) = min least (count next) := by
      split <;> omega
    rw [List.foldl_cons, List.map_cons, List.foldl_cons, hmin]
    exact ih hrest _ (by omega)

/-- What filling the empty executors does to the assignments. -/
structure Shared (current current' : ListMap String String) : Prop where
  keys : ∀ executorID, executorID ∈ current' ↔ executorID ∈ current
  shards : (ListMap.elements current').Perm (ListMap.elements current)
  receives : ∀ executorID ∈ current, ListMap.index current executorID = [] →
    (ListMap.index current' executorID).length = share current
  donates : ∀ executorID ∈ current, ListMap.index current executorID ≠ [] →
    ListMap.index current' executorID <:+ ListMap.index current executorID ∧
      share current ≤ (ListMap.index current' executorID).length ∧ ListMap.index current' executorID ≠ []

variable {current : ListMap String String}

theorem mem_withShards {executorID : String} :
    executorID ∈ withShards current ↔ executorID ∈ current ∧ ListMap.index current executorID ≠ [] := by
  rw [withShards, List.mem_filter, decide_eq_true_eq, AList.mem_keys]

theorem mem_withoutShards {executorID : String} :
    executorID ∈ withoutShards current ↔ executorID ∈ current ∧ ListMap.index current executorID = [] := by
  rw [withoutShards, List.mem_filter, decide_eq_true_eq, AList.mem_keys]

theorem length_withShards_add_withoutShards (current : ListMap String String) :
    (withShards current).length + (withoutShards current).length = current.keys.length := by
  have hsplit := List.length_eq_length_filter_add (l := current.keys)
    (fun executorID => decide (ListMap.index current executorID = []))
  rw [hsplit, withShards, withoutShards, Nat.add_comm]
  simp

theorem leastShards_le {executorID : String} (h : executorID ∈ withShards current) :
    leastShards current ≤ (ListMap.index current executorID).length := by
  have hmem := List.mem_map_of_mem (f := fun executorID => (ListMap.index current executorID).length) h
  rw [leastShards]
  cases hmin : ((withShards current).map fun executorID => (ListMap.index current executorID).length).min? with
  | none => exact Nat.zero_le _
  | some least => exact (List.min?_eq_some_iff.mp hmin).2 _ hmem

theorem leastShards_eq {donors : List String} (hperm : donors.Perm (withShards current)) (hne : donors ≠ []) :
    donors.foldl (fun least executorID =>
      if least = 0 ∨ (ListMap.index current executorID).length < least then (ListMap.index current executorID).length
      else least) 0 = leastShards current := by
  have hcount : ∀ executorID ∈ donors, (ListMap.index current executorID).length ≠ 0 := by
    intro executorID hmem
    rw [Ne, List.length_eq_zero_iff]
    exact (mem_withShards.mp (hperm.mem_iff.mp hmem)).2
  have hleast := foldl_least hne hcount
  have hperm' := hperm.map fun executorID => (ListMap.index current executorID).length
  rw [leastShards, List.min?_eq_some_iff.mpr, Option.getD_some]
  obtain ⟨hmem, hle⟩ := List.min?_eq_some_iff.mp hleast
  exact ⟨hperm'.mem_iff.mp hmem, fun count hcount => hle count (hperm'.mem_iff.mpr hcount)⟩

/-- What the code does with the sorted donors and empty executors. -/
theorem assignShardsToEmptyExecutors_cases (current : ListMap String String) :
    (withShards current = [] ∨ withoutShards current = []) ∧
        assignShardsToEmptyExecutors current = .ok (false, current) ∨
      ∃ donors empties, donors.Perm (withShards current) ∧ empties.Perm (withoutShards current) ∧ donors ≠ [] ∧
        assignShardsToEmptyExecutors current =
          ((List.replicate (share current) empties).flatten.zipIdx.foldlM (stealShard donors) current).map (true, ·) := by
  have hperm : (current.keys.insertionSort (· ≤ ·)).Perm current.keys := List.perm_insertionSort _ _
  have hdonors : ((current.keys.insertionSort (· ≤ ·)).filter
      fun executorID => decide ((ListMap.index current executorID).length ≠ 0)).Perm (withShards current) := by
    rw [withShards]
    simpa only [ne_eq, List.length_eq_zero_iff] using hperm.filter _
  have hempties : ((current.keys.insertionSort (· ≤ ·)).filter
      fun executorID => decide ((ListMap.index current executorID).length = 0)).Perm (withoutShards current) := by
    rw [withoutShards]
    simpa only [List.length_eq_zero_iff] using hperm.filter _
  unfold assignShardsToEmptyExecutors
  dsimp only
  generalize (current.keys.insertionSort (· ≤ ·)).filter
    (fun executorID => decide ((ListMap.index current executorID).length ≠ 0)) = donors at hdonors ⊢
  generalize (current.keys.insertionSort (· ≤ ·)).filter
    (fun executorID => decide ((ListMap.index current executorID).length = 0)) = empties at hempties ⊢
  split
  · rename_i hnone
    left
    refine ⟨hnone.symm.imp ?_ ?_, rfl⟩
    · rintro rfl
      exact hdonors.nil_eq.symm
    · rintro rfl
      exact hempties.nil_eq.symm
  · rename_i hsome
    right
    have hne : donors ≠ [] := fun hnil => hsome (.inr hnil)
    refine ⟨donors, empties, hdonors, hempties, hne, ?_⟩
    rw [leastShards_eq hdonors hne, hdonors.length_eq, ← length_withShards_add_withoutShards current, share]
    rfl

theorem share_le_leastShards (current : ListMap String String) : share current ≤ leastShards current := by
  refine Nat.div_le_of_le_mul ?_
  rw [Nat.mul_comm]
  exact Nat.mul_le_mul_right _ (Nat.le_add_right _ _)

/-- Without donors or without empty executors every executor keeps its list. -/
theorem shared_refl (h : withShards current = [] ∨ withoutShards current = []) : Shared current current where
  keys := fun _ => Iff.rfl
  shards := List.Perm.refl _
  receives := by
    intro executorID hmem hnil
    rcases h with hdonors | hempties
    · rw [hnil, List.length_nil, share, hdonors, List.length_nil, Nat.mul_zero, Nat.zero_div]
    · have hempty := mem_withoutShards.mpr ⟨hmem, hnil⟩
      rw [hempties] at hempty
      cases hempty
  donates := by
    intro executorID hmem hshards
    have hleast := leastShards_le (mem_withShards.mpr ⟨hmem, hshards⟩)
    exact ⟨List.suffix_rfl, (share_le_leastShards current).trans hleast, hshards⟩

/-- The rounds for sorted donors and empty executors give every empty executor
its share and leave the donors at least as much. -/
theorem exists_rounds {donors empties : List String} (hdonors : donors.Perm (withShards current))
    (hempties : empties.Perm (withoutShards current)) (hne : donors ≠ []) :
    ∃ final, (List.replicate (share current) empties).flatten.zipIdx.foldlM (stealShard donors) current = .ok final ∧
      (∀ executorID ∈ empties, (ListMap.index final executorID).length = share current) ∧
      ∀ executorID ∈ donors, ListMap.index final executorID <:+ ListMap.index current executorID ∧
        share current ≤ (ListMap.index final executorID).length ∧ ListMap.index final executorID ≠ [] := by
  have hdisjoint : ∀ executorID ∈ empties, executorID ∉ donors := by
    intro executorID hempty hdonor
    exact (mem_withShards.mp (hdonors.mem_iff.mp hdonor)).2 (mem_withoutShards.mp (hempties.mem_iff.mp hempty)).2
  have hreceivers : ∀ receiver ∈ (List.replicate (share current) empties).flatten, receiver ∉ donors := by
    intro receiver hmem
    obtain ⟨l, hl, hmem⟩ := List.mem_flatten.mp hmem
    rw [List.eq_of_mem_replicate hl] at hmem
    exact hdisjoint receiver hmem
  have hrounds : (List.replicate (share current) empties).flatten.length = share current * empties.length := by simp
  have hturns : ∀ i (hi : i < donors.length), turns donors.length i (share current * empties.length) + share current ≤
      (ListMap.index current donors[i]).length := by
    intro i hi
    refine (turns_add_le hi ?_).trans (leastShards_le (hdonors.mem_iff.mp (List.getElem_mem hi)))
    rw [share, hdonors.length_eq, hempties.length_eq]
  have hnodup : donors.Nodup := hdonors.nodup_iff.mpr (current.keys_nodup.filter _)
  have henough : ∀ i (hi : i < donors.length),
      turns donors.length i (0 + (List.replicate (share current) empties).flatten.length) ≤
        turns donors.length i 0 + (ListMap.index current donors[i]).length := by
    intro i hi
    have hbound := hturns i hi
    rw [Nat.zero_add, hrounds]
    omega
  obtain ⟨final, hfinal, hlost, hgained⟩ := exists_stealShards hnodup hne hreceivers henough
  refine ⟨final, hfinal, fun executorID hempty => ?_, fun executorID hdonor => ?_⟩
  · have hcount : empties.count executorID = 1 :=
      List.count_eq_one_of_mem (hempties.nodup_iff.mpr (current.keys_nodup.filter _)) hempty
    rw [hgained executorID (hdisjoint executorID hempty),
      (mem_withoutShards.mp (hempties.mem_iff.mp hempty)).2, List.length_nil, Nat.zero_add, List.count_flatten,
      List.map_replicate, List.sum_replicate_nat, hcount, Nat.mul_one]
  · obtain ⟨i, hi, rfl⟩ := List.getElem_of_mem hdonor
    have hbound := hturns i hi
    have hshards := (mem_withShards.mp (hdonors.mem_iff.mp hdonor)).2
    have hlength := List.length_pos_iff.mpr hshards
    have hdrop := hlost i hi
    rw [Nat.zero_add, hrounds, turns_zero hi, Nat.sub_zero] at hdrop
    rw [hdrop, List.ne_nil_iff_length_pos, List.length_drop]
    refine ⟨List.drop_suffix _ _, by omega, ?_⟩
    -- Nothing is taken if the share is zero, else at least the share is left.
    rcases Nat.eq_zero_or_pos (share current) with hzero | hpos
    · rw [hzero, Nat.zero_mul, turns_zero hi]
      exact hlength
    · omega

/-- For all assignments the stealing step ends without taking from an empty
list, and what it leaves is shared out. -/
theorem assignShardsToEmptyExecutors_shared (current : ListMap String String) :
    ∃ changed current', assignShardsToEmptyExecutors current = .ok (changed, current') ∧ Shared current current' := by
  rcases assignShardsToEmptyExecutors_cases current with ⟨hnone, heq⟩ | ⟨donors, empties, hdonors, hempties, hne, heq⟩
  · exact ⟨false, current, heq, shared_refl hnone⟩
  · obtain ⟨final, hfinal, hreceives, hdonates⟩ := exists_rounds hdonors hempties hne
    rw [hfinal] at heq
    have hdistributes : Distributes current (· ∈ current) (ListMap.elements current) := ⟨fun _ => Iff.rfl, List.Perm.refl _⟩
    obtain ⟨hkeys, hperm⟩ := assignShardsToEmptyExecutors_distributes hdistributes heq
    refine ⟨true, final, heq, hkeys, hperm, fun executorID hmem hnil => ?_, fun executorID hmem hshards => ?_⟩
    · exact hreceives executorID (hempties.mem_iff.mpr (mem_withoutShards.mpr ⟨hmem, hnil⟩))
    · exact hdonates executorID (hdonors.mem_iff.mpr (mem_withShards.mpr ⟨hmem, hshards⟩))

/-- Filling the empty executors leaves none empty, unless it changes nothing. -/
theorem assignShardsToEmptyExecutors_fills {current current' : ListMap String String} {changed : Bool}
    (h : assignShardsToEmptyExecutors current = .ok (changed, current')) :
    current' = current ∨ ∀ executorID ∈ current, ListMap.index current' executorID ≠ [] := by
  rcases assignShardsToEmptyExecutors_cases current with ⟨-, heq⟩ | ⟨donors, empties, hdonors, hempties, hne, heq⟩
  · rw [h] at heq
    cases heq
    exact .inl rfl
  · obtain ⟨final, hfinal, hreceives, hdonates⟩ := exists_rounds hdonors hempties hne
    rcases Nat.eq_zero_or_pos (share current) with hzero | hpos
    · rw [h, hzero] at heq
      cases heq
      exact .inl rfl
    · rw [h, hfinal] at heq
      cases heq
      right
      intro executorID hmem
      by_cases hshards : ListMap.index current executorID = []
      · rw [List.ne_nil_iff_length_pos,
          hreceives executorID (hempties.mem_iff.mpr (mem_withoutShards.mpr ⟨hmem, hshards⟩))]
        exact hpos
      · exact (hdonates executorID (hdonors.mem_iff.mpr (mem_withShards.mpr ⟨hmem, hshards⟩))).2.2

end Shares

end process
