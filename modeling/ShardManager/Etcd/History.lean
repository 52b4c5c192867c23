import ShardManager.Etcd.Effect

open golang

namespace etcd

variable {V : Type}

section Events

variable {revision : Int}

theorem Op.apply_events (revision : Int) (d : Draft V) (op : Op V) :
    ∃ events, (op.apply revision d).1.events = d.events ++ events ∧
      (events = [] → ∀ key, (op.apply revision d).1.kvs.lookup key = d.kvs.lookup key) := by
  cases op with
  | put key value => exact ⟨_, rfl, by simp⟩
  | delete range =>
    refine ⟨_, rfl, ?_⟩
    intro hnil key
    change (d.kvs.filterKeys _).lookup key = _
    rw [Map.lookup_filterKeys]
    split
    · rfl
    · rename_i hc
      simp only [Bool.not_eq_true', Bool.not_eq_false] at hc
      cases hlookup : d.kvs.lookup key with
      | none => rfl
      | some kv =>
        have hmem : (key, kv) ∈ (d.kvs.filterKeys range.contains).toList := by
          rw [Map.mem_toList_iff, Map.lookup_filterKeys, if_pos hc, hlookup]
        rw [List.map_eq_nil_iff.mp hnil] at hmem
        simp at hmem
  | get range => exact ⟨[], by simp [Op.apply], fun _ _ => rfl⟩

/-- Events only accumulate, and operations that raise none change nothing. -/
theorem applyOps_events (revision : Int) (d : Draft V) (ops : List (Op V)) :
    ∃ events, (applyOps revision d ops).1.events = d.events ++ events ∧
      (events = [] → ∀ key, (applyOps revision d ops).1.kvs.lookup key = d.kvs.lookup key) := by
  induction ops generalizing d with
  | nil => exact ⟨[], by simp [applyOps], fun _ _ => rfl⟩
  | cons op ops ih =>
    obtain ⟨first, hfirst, hsame⟩ := Op.apply_events revision d op
    obtain ⟨rest, hrest, hrestSame⟩ := ih (op.apply revision d).1
    refine ⟨first ++ rest, ?_, ?_⟩
    · change (applyOps revision (op.apply revision d).1 ops).1.events = _
      rw [hrest, hfirst, List.append_assoc]
    · intro hnil key
      obtain ⟨hf, hr⟩ := List.append_eq_nil_iff.mp hnil
      exact (hrestSame hr key).trans (hsame hf key)

end Events

variable [DecidableEq V]

namespace Txn

/-- The operations a transaction executes in a store. -/
def ops (t : Txn V) (s : Store V) : List (Op V) := flatten s (t.branch s)

theorem draft_eq (t : Txn V) (s : Store V) :
    t.draft s = (applyOps (s.revision + 1) ⟨s.kvs, []⟩ (t.ops s)).1 :=
  applyRequests_eq_applyOps s _ _

theorem next_get (t : Txn V) (s : Store V) (key : String) :
    (t.next s).get key = (t.draft s).kvs.lookup key := by
  unfold Txn.next
  split
  · rename_i hnil
    obtain ⟨events, heq, hsame⟩ :=
      applyOps_events (s.revision + 1) ⟨s.kvs, []⟩ (t.ops s)
    rw [draft_eq] at hnil ⊢
    rw [heq, List.nil_append, List.isEmpty_iff] at hnil
    exact (hsame hnil key).symm
  · rfl

theorem revision_le_next (t : Txn V) (s : Store V) : s.revision ≤ (t.next s).revision := by
  unfold Txn.next
  split
  · exact le_refl _
  · change s.revision ≤ s.revision + 1
    omega

theorem next_revision_le (t : Txn V) (s : Store V) : (t.next s).revision ≤ s.revision + 1 := by
  unfold Txn.next
  split
  · omega
  · exact le_refl _

/-- Committing only adds to the history of a store. -/
theorem follows_next (t : Txn V) (s : Store V) : s.Follows (t.next s) where
  revision_le := t.revision_le_next s
  get_of_le := by
    intro key kv hget hle
    rw [next_get, draft_eq] at hget
    rcases applyOps_lookup_cases hget with hrev | hget
    · omega
    · exact hget

variable {t : Txn V} {s : Store V} {key : String}

theorem next_get_of_not_touches (h : ¬ Touches (t.ops s) key) :
    (t.next s).get key = s.get key := by
  rw [next_get, draft_eq]
  exact applyOps_lookup_of_not_touches h

theorem next_get_of_put (hadm : Admissible (t.ops s)) {value : V}
    (h : Op.put key value ∈ t.ops s) :
    (t.next s).get key = some ⟨value, s.revision + 1⟩ := by
  rw [next_get, draft_eq]
  exact applyOps_lookup_of_put hadm h

theorem next_get_of_deleted (hadm : Admissible (t.ops s)) {range : Range}
    (h : Op.delete range ∈ t.ops s) (hc : range.contains key = true) :
    (t.next s).get key = none := by
  rw [next_get, draft_eq]
  exact applyOps_lookup_of_deleted hadm h hc

theorem next_revision_of_put (hadm : Admissible (t.ops s)) {value : V}
    (h : Op.put key value ∈ t.ops s) : (t.next s).revision = s.revision + 1 := by
  have hget := next_get_of_put hadm h
  have hle := t.next_revision_le s
  have hbound := ((t.next s).bounded hget).2
  change s.revision + 1 ≤ _ at hbound
  omega

theorem next_eq_of_no_events (h : (t.draft s).events = []) : t.next s = s := by
  simp [Txn.next, h]

theorem next_eq_of_ops_nil (h : t.ops s = []) : t.next s = s := by
  apply next_eq_of_no_events
  rw [draft_eq, h]
  rfl

/-- A transaction that only reads leaves no trace. -/
theorem next_eq_of_gets (h : ∀ op ∈ t.ops s, ∃ range, op = .get range) : t.next s = s := by
  apply next_eq_of_no_events
  rw [draft_eq]
  suffices hreads : ∀ ops : List (Op V), (∀ op ∈ ops, ∃ range, op = .get range) →
      ∀ d, (applyOps (s.revision + 1) d ops).1 = d by
    rw [hreads _ h]
  intro ops
  induction ops with
  | nil => exact fun _ _ => rfl
  | cons op ops ih =>
    intro h d
    obtain ⟨range, rfl⟩ := h op List.mem_cons_self
    exact ih (fun op hop => h op (List.mem_cons_of_mem _ hop)) d

theorem commit_eq_some_iff {c : Committed V} :
    t.commit s = some c ↔ t.accepted = true ∧ c =
      { store := t.next s
        events := (t.draft s).events
        response := ⟨cmpsHold s t.cmps, (applyRequests s ⟨s.kvs, []⟩ (t.branch s)).2⟩ } := by
  unfold Txn.commit
  split
  · simp [*, eq_comm]
  · simp [*]

omit [DecidableEq V] in
/-- The server accepts a flat transaction whose branches are both admissible. -/
theorem accepted_of_admissible {cmps : List (Cmp V)} {thens elses : List (Op V)} (hthens : Admissible thens)
    (helses : Admissible elses) : (Txn.mk cmps (thens.map .op) (elses.map .op)).accepted = true := by
  simp only [Txn.accepted, checkIntervals_map_op, Bool.and_eq_true, Option.isSome_iff_exists,
    ← admissible_iff_checkOps]
  exact ⟨hthens, helses⟩

/-- An accepted transaction whose branches are flat executes an admissible list. -/
theorem admissible_ops_of_flat {cmps : List (Cmp V)} {thens elses : List (Op V)}
    (h : (Txn.mk cmps (thens.map .op) (elses.map .op)).accepted = true) (s : Store V) :
    Admissible ((Txn.mk cmps (thens.map .op) (elses.map .op)).ops s) ∧
      (Txn.mk cmps (thens.map .op) (elses.map .op)).ops s =
        if cmpsHold s cmps then thens else elses := by
  simp only [Txn.accepted, checkIntervals_map_op, Bool.and_eq_true, Option.isSome_iff_exists,
    ← admissible_iff_checkOps] at h
  have hflat : ∀ l : List (Op V), flatten s (l.map .op) = l := by
    intro l
    induction l with
    | nil => rfl
    | cons op l ih => exact congrArg (op :: ·) ih
  unfold Txn.ops Txn.branch
  split <;> simp [hflat, h]

/-- Conditions around a single nested transaction decide whether it runs. -/
theorem ops_nested (guard cmps : List (Cmp V)) (thens elses : List (Op V)) (s : Store V) :
    (Txn.mk guard [.txn cmps thens elses] []).ops s =
      if cmpsHold s guard then (if cmpsHold s cmps then thens else elses) else [] := by
  unfold Txn.ops Txn.branch
  split <;> simp [flatten]

/-- An accepted transaction around one nested transaction executes an
admissible list. -/
theorem admissible_ops_nested {guard cmps : List (Cmp V)} {thens elses : List (Op V)}
    (h : (Txn.mk guard [.txn cmps thens elses] []).accepted = true) (s : Store V) :
    Admissible ((Txn.mk guard [.txn cmps thens elses] []).ops s) := by
  simp only [Txn.accepted, Bool.and_eq_true] at h
  obtain ⟨hthens, helses⟩ := checkIntervals_nested h.1
  rw [ops_nested]
  split
  · split
    · exact hthens
    · exact helses
  · exact admissible_of_no_puts rfl

/-- What a client can observe of a commit, and what is then known of the store. -/
theorem send_cases (t : Txn V) (fate : Fate) (s : Store V) :
    (∃ cause, t.send fate s = (.error cause, s)) ∨
    (t.accepted = true ∧ t.send fate s = (.ok
      ⟨cmpsHold s t.cmps, (applyRequests s ⟨s.kvs, []⟩ (t.branch s)).2⟩, t.next s)) ∨
    (t.accepted = true ∧ ∃ s', (s' = s ∨ s' = t.next s) ∧ t.send fate s = (.error .unknown, s')) := by
  unfold Txn.send
  cases hcommit : t.commit s with
  | none => exact .inl ⟨_, rfl⟩
  | some c =>
    obtain ⟨haccepted, rfl⟩ := commit_eq_some_iff.mp hcommit
    cases fate with
    | delivered => exact .inr (.inl ⟨haccepted, rfl⟩)
    | refused => exact .inl ⟨_, rfl⟩
    | unknown applied =>
      refine .inr (.inr ⟨haccepted, _, ?_, rfl⟩)
      cases applied
      · exact .inl rfl
      · exact .inr rfl

/-- Whatever becomes of it, sending a transaction only adds to the history. -/
theorem send_follows (t : Txn V) (fate : Fate) (s : Store V) : s.Follows (t.send fate s).2 := by
  rcases t.send_cases fate s with ⟨cause, hsend⟩ | ⟨-, hsend⟩ | ⟨-, s', rfl | rfl, hsend⟩
  all_goals rw [hsend]
  · exact .refl s
  · exact t.follows_next s
  · exact .refl _
  · exact t.follows_next s

end Txn

/-- The store after an accepted transaction that executed `ops`. -/
def Applied (ops : List (Op V)) (s s' : Store V) : Prop :=
  ∃ t : Txn V, Admissible (t.ops s) ∧ t.ops s = ops ∧ s' = t.next s

namespace Applied

variable {ops : List (Op V)} {s s' : Store V} {key : String}

theorem follows (h : Applied ops s s') : s.Follows s' := by
  obtain ⟨t, -, -, rfl⟩ := h
  exact t.follows_next s

theorem get_of_put (h : Applied ops s s') {value : V} (hput : Op.put key value ∈ ops) :
    s'.get key = some ⟨value, s.revision + 1⟩ := by
  obtain ⟨t, hadm, rfl, rfl⟩ := h
  exact Txn.next_get_of_put hadm hput

theorem get_of_deleted (h : Applied ops s s') {range : Range} (hdelete : Op.delete range ∈ ops)
    (hc : range.contains key = true) : s'.get key = none := by
  obtain ⟨t, hadm, rfl, rfl⟩ := h
  exact Txn.next_get_of_deleted hadm hdelete hc

theorem get_of_not_touches (h : Applied ops s s') (htouch : ¬Touches ops key) : s'.get key = s.get key := by
  obtain ⟨t, -, rfl, rfl⟩ := h
  exact Txn.next_get_of_not_touches htouch

theorem get_of_spared (h : Applied ops s s') (hputs : ∀ value, Op.put key value ∉ ops)
    (hdeletes : ∀ range, Op.delete range ∈ ops → range.contains key = false) : s'.get key = s.get key := by
  refine h.get_of_not_touches ?_
  rintro (hput | ⟨range, hrange, hcontains⟩)
  · obtain ⟨value, hput⟩ := mem_putKeys.mp hput
    exact hputs value hput
  · rw [hdeletes range (mem_deleteRanges.mp hrange)] at hcontains
    cases hcontains

/-- Every key is put, deleted or left alone. -/
theorem get_cases (h : Applied ops s s') (key : String) :
    (∃ value, Op.put key value ∈ ops ∧ s'.get key = some ⟨value, s.revision + 1⟩) ∨
      s'.get key = none ∨ s'.get key = s.get key := by
  by_cases htouch : Touches ops key
  · rcases htouch with hput | ⟨range, hrange, hcontains⟩
    · obtain ⟨value, hput⟩ := mem_putKeys.mp hput
      exact .inl ⟨value, hput, h.get_of_put hput⟩
    · exact .inr (.inl (h.get_of_deleted (mem_deleteRanges.mp hrange) hcontains))
  · exact .inr (.inr (h.get_of_not_touches htouch))

theorem eq_of_nil (h : Applied [] s s') : s' = s := by
  obtain ⟨t, -, hops, rfl⟩ := h
  exact Txn.next_eq_of_ops_nil hops

/-- The revision tells whether anything changed. -/
theorem eq_of_revision (h : Applied ops s s') (hrevision : s'.revision = s.revision) : s' = s := by
  obtain ⟨t, -, -, rfl⟩ := h
  unfold Txn.next at hrevision ⊢
  split
  · rfl
  · rename_i hevents
    rw [if_neg hevents] at hrevision
    change s.revision + 1 = s.revision at hrevision
    omega

theorem revision_of_put (h : Applied ops s s') {value : V} (hput : Op.put key value ∈ ops) :
    s'.revision = s.revision + 1 := by
  obtain ⟨t, hadm, rfl, rfl⟩ := h
  exact Txn.next_revision_of_put hadm hput

end Applied

/-- A transaction without nested ones. -/
def Txn.flat (cmps : List (Cmp V)) (thens elses : List (Op V)) : Txn V :=
  ⟨cmps, thens.map .op, elses.map .op⟩

omit [DecidableEq V] in
theorem Txn.accepted_flat_iff {cmps : List (Cmp V)} {thens elses : List (Op V)} :
    (Txn.flat cmps thens elses).accepted = true ↔ Admissible thens ∧ Admissible elses := by
  simp only [Txn.flat, Txn.accepted, checkIntervals_map_op, Bool.and_eq_true, Option.isSome_iff_exists,
    ← admissible_iff_checkOps]

/-- What an accepted flat transaction brings about. -/
theorem Txn.applied_of_accepted {cmps : List (Cmp V)} {thens elses : List (Op V)}
    (h : (Txn.flat cmps thens elses).accepted = true) (s : Store V) :
    Applied (if cmpsHold s cmps then thens else elses) s ((Txn.flat cmps thens elses).next s) := by
  obtain ⟨hadm, hops⟩ := Txn.admissible_ops_of_flat h s
  exact ⟨_, hadm, hops, rfl⟩

/-- What sending a flat transaction does: nothing, or what the conditions select. -/
theorem Txn.send_flat_cases {cmps : List (Cmp V)} {thens elses : List (Op V)} {fate : Fate} {s s' : Store V}
    {result : Except CommitError (TxnResponse V)}
    (h : (Txn.flat cmps thens elses).send fate s = (result, s')) :
    (s' = s ∧ ∃ e, result = .error e) ∨
    Applied (if cmpsHold s cmps then thens else elses) s s' ∧
      (result = .error .unknown ∨ ∃ response, result = .ok response ∧ response.succeeded = cmpsHold s cmps) := by
  rcases (Txn.flat cmps thens elses).send_cases fate s with ⟨cause, hsend⟩ | ⟨haccepted, hsend⟩ |
    ⟨haccepted, s'', hs'', hsend⟩
  · rw [hsend] at h
    cases h
    exact .inl ⟨rfl, _, rfl⟩
  · rw [hsend] at h
    cases h
    exact .inr ⟨Txn.applied_of_accepted haccepted s, .inr ⟨_, rfl, rfl⟩⟩
  · rw [hsend] at h
    cases h
    rcases hs'' with rfl | rfl
    · exact .inl ⟨rfl, _, rfl⟩
    · exact .inr ⟨Txn.applied_of_accepted haccepted s, .inl rfl⟩

/-- The store after sending a flat transaction. -/
theorem Txn.send_flat_store (cmps : List (Cmp V)) (thens elses : List (Op V)) (fate : Fate) (s : Store V) :
    ((Txn.flat cmps thens elses).send fate s).2 = s ∨
      Applied (if cmpsHold s cmps then thens else elses) s ((Txn.flat cmps thens elses).send fate s).2 := by
  rcases hsend : (Txn.flat cmps thens elses).send fate s with ⟨result, s'⟩
  rcases Txn.send_flat_cases hsend with ⟨hsame, -⟩ | ⟨happlied, -⟩
  · exact .inl hsame
  · exact .inr happlied

/-- An admissible transaction that is delivered is applied. -/
theorem Txn.send_flat_delivered {thens elses : List (Op V)} (hthens : Admissible thens)
    (helses : Admissible elses) (cmps : List (Cmp V)) (s : Store V) :
    Applied (if cmpsHold s cmps then thens else elses) s ((Txn.flat cmps thens elses).send .delivered s).2 := by
  have haccepted : (Txn.flat cmps thens elses).accepted = true := Txn.accepted_of_admissible hthens helses
  have hstore : ((Txn.flat cmps thens elses).send .delivered s).2 = (Txn.flat cmps thens elses).next s := by
    simp [Txn.send, Txn.commit, haccepted]
  rw [hstore]
  exact Txn.applied_of_accepted haccepted s

end etcd
