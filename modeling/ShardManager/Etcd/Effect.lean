import ShardManager.Etcd.Txn

open golang

namespace etcd

variable {V : Type}

/-- What the server demands of a flat branch: no key is put twice and no put
lies in a deleted range. The order of the operations then does not matter. -/
structure Admissible (ops : List (Op V)) : Prop where
  nodup_puts : (putKeys ops).Nodup
  not_deleted : ∀ key ∈ putKeys ops, ∀ range ∈ deleteRanges ops, range.contains key = false

theorem admissible_of_no_puts {ops : List (Op V)} (h : putKeys ops = []) : Admissible ops := by
  constructor <;> simp [h]

theorem Intervals.addPut_eq_some_iff {iv iv' : Intervals} {key : String} :
    iv.addPut key = some iv' ↔
      (key ∉ iv.puts ∧ ∀ range ∈ iv.dels, range.contains key = false) ∧
        iv' = { iv with puts := key :: iv.puts } := by
  unfold Intervals.addPut
  by_cases hput : key ∈ iv.puts
  · simp [hput]
  · by_cases hdel : ∀ range ∈ iv.dels, range.contains key = false
    · have hany : iv.dels.any (·.contains key) = false := by
        simpa [List.any_eq_false] using hdel
      constructor
      · intro h
        simp only [List.contains_eq_mem, hput, decide_false, hany, Bool.or_self,
          Bool.false_eq_true, if_false, Option.some.injEq] at h
        exact ⟨⟨hput, hdel⟩, h.symm⟩
      · rintro ⟨_, rfl⟩
        simp [hput, hany]
    · have hany : iv.dels.any (·.contains key) = true := by
        push Not at hdel
        obtain ⟨range, hmem, hc⟩ := hdel
        exact List.any_eq_true.mpr ⟨range, hmem, by simpa using hc⟩
      simp [hput, hany, hdel]

theorem Intervals.addPuts_eq_some_iff {iv iv' : Intervals} {keys : List String} :
    iv.addPuts keys = some iv' ↔
      (keys.Nodup ∧ ∀ key ∈ keys, key ∉ iv.puts ∧ ∀ range ∈ iv.dels, range.contains key = false) ∧
        iv' = { iv with puts := keys.reverse ++ iv.puts } := by
  induction keys generalizing iv with
  | nil =>
    constructor
    · intro h
      cases h
      simp
    · rintro ⟨_, rfl⟩
      rfl
  | cons key keys ih =>
    have hstep : iv.addPuts (key :: keys) = iv.addPut key >>= fun iv => iv.addPuts keys := by
      simp [Intervals.addPuts]
    rw [hstep, Option.bind_eq_bind, Option.bind_eq_some_iff]
    constructor
    · rintro ⟨mid, hmid, hrest⟩
      obtain ⟨⟨hput, hdel⟩, rfl⟩ := Intervals.addPut_eq_some_iff.mp hmid
      obtain ⟨⟨hnodup, hkeys⟩, rfl⟩ := ih.mp hrest
      refine ⟨⟨List.nodup_cons.mpr ⟨?_, hnodup⟩, ?_⟩, by simp⟩
      · intro hmem
        exact (hkeys key hmem).1 (List.mem_cons_self ..)
      · intro k hk
        rcases List.mem_cons.mp hk with rfl | hk
        · exact ⟨hput, hdel⟩
        · exact ⟨fun h => (hkeys k hk).1 (List.mem_cons_of_mem _ h), (hkeys k hk).2⟩
    · rintro ⟨⟨hnodup, hkeys⟩, rfl⟩
      obtain ⟨hnot, hnodup⟩ := List.nodup_cons.mp hnodup
      refine ⟨_, Intervals.addPut_eq_some_iff.mpr ⟨hkeys key (List.mem_cons_self ..), rfl⟩, ?_⟩
      refine ih.mpr ⟨⟨hnodup, ?_⟩, by simp⟩
      intro k hk
      obtain ⟨hput, hdel⟩ := hkeys k (List.mem_cons_of_mem _ hk)
      refine ⟨?_, hdel⟩
      intro h
      rcases List.mem_cons.mp h with rfl | h
      · exact hnot hk
      · exact hput h

theorem admissible_iff_checkOps {ops : List (Op V)} :
    Admissible ops ↔ ∃ iv, checkOps ops = some iv := by
  simp only [checkOps, Intervals.addPuts_eq_some_iff, exists_and_left, exists_eq, and_true]
  constructor
  · intro h
    exact ⟨h.nodup_puts, fun key hkey => ⟨by simp, h.not_deleted key hkey⟩⟩
  · rintro ⟨hnodup, hkeys⟩
    exact ⟨hnodup, fun key hkey => (hkeys key hkey).2⟩

theorem filterMap_op?_map (ops : List (Op V)) :
    (ops.map RequestOp.op).filterMap RequestOp.op? = ops := by
  induction ops with
  | nil => rfl
  | cons op ops ih => simp [RequestOp.op?, ih]

/-- A branch without nested transactions is checked as the flat list it is. -/
theorem checkIntervals_map_op (ops : List (Op V)) :
    checkIntervals (ops.map RequestOp.op) = checkOps ops := by
  have hchildren : ∀ iv : Intervals, (ops.map RequestOp.op).foldlM checkChild iv = some iv := by
    intro iv
    induction ops with
    | nil => rfl
    | cons op ops ih => simpa [checkChild] using ih
  simp only [checkIntervals, filterMap_op?_map, hchildren, checkOps, Option.bind_eq_bind,
    Option.bind_some]

/-- Admission of a single nested transaction is admission of its branches. -/
theorem checkIntervals_nested {cmps : List (Cmp V)} {thens elses : List (Op V)}
    (h : (checkIntervals [.txn cmps thens elses]).isSome = true) :
    Admissible thens ∧ Admissible elses := by
  obtain ⟨iv, h⟩ := Option.isSome_iff_exists.mp h
  simp only [checkIntervals, List.filterMap_cons, RequestOp.op?, List.filterMap_nil,
    List.foldlM_cons, List.foldlM_nil, checkChild, Option.bind_eq_bind,
    Option.bind_eq_some_iff] at h
  obtain ⟨_, ⟨_, ⟨thenIv, hthen, elseIv, helse, _⟩, _⟩, _⟩ := h
  exact ⟨admissible_iff_checkOps.mpr ⟨_, hthen⟩, admissible_iff_checkOps.mpr ⟨_, helse⟩⟩

section Lookup

variable {revision : Int}

theorem putKeys_cons_put (key : String) (value : V) (ops : List (Op V)) :
    putKeys (.put key value :: ops) = key :: putKeys ops := rfl

theorem mem_putKeys {ops : List (Op V)} {key : String} :
    key ∈ putKeys ops ↔ ∃ value, Op.put key value ∈ ops := by
  simp only [putKeys, List.mem_filterMap]
  constructor
  · rintro ⟨op, hop, hkey⟩
    cases op with
    | put k value =>
      cases hkey
      exact ⟨value, hop⟩
    | delete range => cases hkey
    | get range => cases hkey
  · rintro ⟨value, hop⟩
    exact ⟨_, hop, rfl⟩

theorem mem_deleteRanges {ops : List (Op V)} {range : Range} :
    range ∈ deleteRanges ops ↔ Op.delete range ∈ ops := by
  simp only [deleteRanges, List.mem_filterMap]
  constructor
  · rintro ⟨op, hop, hrange⟩
    cases op with
    | put k value => cases hrange
    | delete r =>
      cases hrange
      exact hop
    | get r => cases hrange
  · intro hop
    exact ⟨_, hop, rfl⟩

theorem Admissible.tail {op : Op V} {ops : List (Op V)} (h : Admissible (op :: ops)) :
    Admissible ops := by
  cases op with
  | put key value =>
    exact ⟨(List.nodup_cons.mp h.nodup_puts).2,
      fun k hk range hr => h.not_deleted k (List.mem_cons_of_mem _ hk) range hr⟩
  | delete range =>
    exact ⟨h.nodup_puts, fun k hk r hr => h.not_deleted k hk r (List.mem_cons_of_mem _ hr)⟩
  | get range => exact ⟨h.nodup_puts, h.not_deleted⟩

/-- Does an operation list put or delete a key? -/
def Touches (ops : List (Op V)) (key : String) : Prop :=
  key ∈ putKeys ops ∨ ∃ range ∈ deleteRanges ops, range.contains key = true

theorem touches_put_iff {key key' : String} {value : V} : Touches [.put key' value] key ↔ key = key' := by
  simp [Touches, putKeys, deleteRanges, Op.putKey?, Op.deleteRange?]

theorem touches_delete_iff {key : String} {range : Range} :
    Touches [(.delete range : Op V)] key ↔ range.contains key = true := by
  simp [Touches, putKeys, deleteRanges, Op.putKey?, Op.deleteRange?]

/-- The key an operation puts or deletes on its own. -/
def Op.key? : Op V → Option String
  | .put key _ => some key
  | .delete (.key key) => some key
  | .delete (.withPrefix _) => none
  | .get _ => none

/-- Operations touch a key on its own or with its directory. -/
theorem Touches.cases {ops : List (Op V)} {key : String} (h : Touches ops key) :
    (∃ op ∈ ops, op.key? = some key) ∨
      ∃ dir, Op.delete (.withPrefix dir) ∈ ops ∧ (Range.withPrefix dir).contains key = true := by
  rcases h with hput | ⟨range, hrange, hcontains⟩
  · obtain ⟨value, hput⟩ := mem_putKeys.mp hput
    exact .inl ⟨_, hput, rfl⟩
  · have hdelete := mem_deleteRanges.mp hrange
    cases range with
    | key key' =>
      obtain rfl := of_decide_eq_true hcontains
      exact .inl ⟨_, hdelete, rfl⟩
    | withPrefix dir => exact .inr ⟨dir, hdelete, hcontains⟩

theorem Touches.exists_mem {ops : List (Op V)} {key : String} (h : Touches ops key) :
    ∃ op ∈ ops, Touches [op] key := by
  rcases h with hput | ⟨range, hrange, hcontains⟩
  · obtain ⟨value, hput⟩ := mem_putKeys.mp hput
    exact ⟨_, hput, touches_put_iff.mpr rfl⟩
  · exact ⟨_, mem_deleteRanges.mp hrange, touches_delete_iff.mpr hcontains⟩

theorem Touches.mono {ops ops' : List (Op V)} {key : String} (h : Touches ops key)
    (hsubset : ∀ op ∈ ops, op ∈ ops') : Touches ops' key := by
  rcases h with hput | ⟨range, hrange, hcontains⟩
  · obtain ⟨value, hput⟩ := mem_putKeys.mp hput
    exact .inl (mem_putKeys.mpr ⟨value, hsubset _ hput⟩)
  · exact .inr ⟨range, mem_deleteRanges.mpr (hsubset _ (mem_deleteRanges.mp hrange)), hcontains⟩

theorem not_touches_cons {op : Op V} {ops : List (Op V)} {key : String}
    (h : ¬ Touches (op :: ops) key) : ¬ Touches [op] key ∧ ¬ Touches ops key := by
  refine ⟨fun hop => h (hop.mono ?_), fun hops => h (hops.mono fun _ => List.mem_cons_of_mem _)⟩
  exact List.forall_mem_singleton.mpr List.mem_cons_self

theorem Op.apply_lookup_of_not_touches {op : Op V} {d : Draft V} {key : String}
    (h : ¬ Touches [op] key) : (op.apply revision d).1.kvs.lookup key = d.kvs.lookup key := by
  cases op with
  | put k value =>
    have hne : key ≠ k := by
      intro heq
      exact h (.inl (by simp [heq, putKeys, Op.putKey?]))
    exact AList.lookup_insert_ne hne
  | delete range =>
    have hc : range.contains key = false := by
      by_contra hc
      exact h (.inr ⟨range, by simp [deleteRanges, Op.deleteRange?], by simpa using hc⟩)
    change (d.kvs.filterKeys _).lookup key = _
    rw [Map.lookup_filterKeys]
    simp [hc]
  | get range => rfl

theorem applyOps_lookup_of_not_touches {d : Draft V} {ops : List (Op V)} {key : String}
    (h : ¬ Touches ops key) : (applyOps revision d ops).1.kvs.lookup key = d.kvs.lookup key := by
  induction ops generalizing d with
  | nil => rfl
  | cons op ops ih =>
    obtain ⟨hop, hops⟩ := not_touches_cons h
    change (applyOps revision (op.apply revision d).1 ops).1.kvs.lookup key = _
    rw [ih hops, Op.apply_lookup_of_not_touches hop]

/-- A put of an admissible branch ends up in the store at the transaction's
revision. -/
theorem applyOps_lookup_of_put {d : Draft V} {ops : List (Op V)} {key : String} {value : V}
    (hadm : Admissible ops) (h : Op.put key value ∈ ops) :
    (applyOps revision d ops).1.kvs.lookup key = some ⟨value, revision⟩ := by
  induction ops generalizing d with
  | nil => simp at h
  | cons op ops ih =>
    change (applyOps revision (op.apply revision d).1 ops).1.kvs.lookup key = _
    rcases List.mem_cons.mp h with rfl | h
    · have hnot : ¬ Touches ops key := by
        rintro (hput | ⟨range, hr, hc⟩)
        · exact (List.nodup_cons.mp hadm.nodup_puts).1 hput
        · have := hadm.not_deleted key (List.mem_cons_self ..) range hr
          rw [this] at hc
          cases hc
      rw [applyOps_lookup_of_not_touches hnot]
      exact AList.lookup_insert _
    · exact ih hadm.tail h

theorem applyOps_lookup_of_deleted {d : Draft V} {ops : List (Op V)} {key : String} {range : Range}
    (hadm : Admissible ops) (hrange : Op.delete range ∈ ops) (hc : range.contains key = true) :
    (applyOps revision d ops).1.kvs.lookup key = none := by
  have hput : key ∉ putKeys ops := by
    intro hput
    have := hadm.not_deleted key hput range (mem_deleteRanges.mpr hrange)
    rw [this] at hc
    cases hc
  clear hadm
  -- Once gone the key stays gone, since no later operation puts it.
  have hgone : ∀ (ops : List (Op V)) (d : Draft V), key ∉ putKeys ops →
      d.kvs.lookup key = none → (applyOps revision d ops).1.kvs.lookup key = none := by
    intro ops
    induction ops with
    | nil => exact fun d _ h => h
    | cons op ops ih =>
      intro d hput hnone
      change (applyOps revision (op.apply revision d).1 ops).1.kvs.lookup key = none
      cases op with
      | put k value =>
        rw [putKeys_cons_put, List.mem_cons, not_or] at hput
        refine ih _ hput.2 ?_
        exact (AList.lookup_insert_ne hput.1).trans hnone
      | delete r =>
        refine ih _ hput ?_
        change (d.kvs.filterKeys _).lookup key = none
        rw [Map.lookup_filterKeys, hnone, ite_self]
      | get r => exact ih _ hput hnone
  induction ops generalizing d with
  | nil => simp at hrange
  | cons op ops ih =>
    change (applyOps revision (op.apply revision d).1 ops).1.kvs.lookup key = none
    have htail : key ∉ putKeys ops := by
      intro h
      exact hput (mem_putKeys.mpr (by
        obtain ⟨v, hv⟩ := mem_putKeys.mp h
        exact ⟨v, List.mem_cons_of_mem _ hv⟩))
    rcases List.mem_cons.mp hrange with rfl | hrange
    · apply hgone _ _ htail
      change (d.kvs.filterKeys _).lookup key = none
      rw [Map.lookup_filterKeys]
      simp [hc]
    · exact ih hrange htail

/-- Every key a transaction leaves behind it either put or found there. -/
theorem applyOps_lookup_cases {d : Draft V} {ops : List (Op V)} {key : String} {kv : KeyValue V}
    (h : (applyOps revision d ops).1.kvs.lookup key = some kv) :
    kv.modRevision = revision ∨ d.kvs.lookup key = some kv := by
  induction ops generalizing d with
  | nil => exact .inr h
  | cons op ops ih =>
    change (applyOps revision (op.apply revision d).1 ops).1.kvs.lookup key = some kv at h
    rcases ih h with hrev | hmid
    · exact .inl hrev
    · cases op with
      | put k value =>
        change (d.kvs.insert k ⟨value, revision⟩).lookup key = some kv at hmid
        rw [Map.lookup_insert_eq] at hmid
        split at hmid
        · cases hmid
          exact .inl rfl
        · exact .inr hmid
      | delete range =>
        change (d.kvs.filterKeys _).lookup key = some kv at hmid
        rw [Map.lookup_filterKeys] at hmid
        split at hmid
        · exact .inr hmid
        · cases hmid
      | get range => exact .inr hmid

end Lookup

end etcd
