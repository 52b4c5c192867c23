import ShardManager.Etcd.History

open golang

namespace etcd

variable {V : Type}

/-- Dropping entries commutes with putting a key that stays. -/
theorem filterKeys_insert (m : Map String (KeyValue V)) {keep : String → Bool} {key : String}
    (hkey : keep key = true) (kv : KeyValue V) :
    Map.filterKeys (m.insert key kv) keep = (m.filterKeys keep).insert key kv := by
  apply AList.ext
  simp only [Map.filterKeys, AList.entries_insert]
  rw [List.filter_cons_of_pos (by exact hkey)]
  congr 1
  induction m.entries with
  | nil => rfl
  | cons entry entries ih =>
    by_cases hentry : key = entry.1
    · rw [List.kerase_cons_eq hentry, List.filter_cons_of_pos (by rw [← hentry]; exact hkey),
        List.kerase_cons_eq hentry]
    · rw [List.kerase_cons_ne hentry]
      by_cases hkeep : keep entry.1 = true
      · rw [List.filter_cons_of_pos (by exact hkeep), List.filter_cons_of_pos (by exact hkeep),
          List.kerase_cons_ne hentry, ih]
      · rw [List.filter_cons_of_neg (by exact hkeep), List.filter_cons_of_neg (by exact hkeep), ih]

theorem filterKeys_filterKeys (m : Map String (KeyValue V)) (p q : String → Bool) :
    (m.filterKeys p).filterKeys q = m.filterKeys fun key => p key && q key := by
  apply AList.ext
  change List.filter _ (List.filter _ m.entries) = List.filter _ m.entries
  rw [List.filter_filter]
  congr 1
  funext entry
  exact Bool.and_comm _ _

namespace Store

theorem eq_of_kvs {s s' : Store V} (hkvs : s.kvs = s'.kvs) (hrevision : s.revision = s'.revision) : s = s' := by
  cases s
  cases s'
  cases hkvs
  cases hrevision
  rfl

/-- The store as if some keys had never been put. -/
def without (s : Store V) (hidden : String → Bool) : Store V where
  kvs := s.kvs.filterKeys fun key => !hidden key
  revision := s.revision
  revision_pos := s.revision_pos
  bounded := by
    intro key kv h
    rw [Map.lookup_filterKeys] at h
    split at h
    · exact s.bounded h
    · cases h

variable {s : Store V} {hidden : String → Bool}

theorem get_without {key : String} (hkey : hidden key = false) : (s.without hidden).get key = s.get key := by
  rw [get, without, Map.lookup_filterKeys, hkey]
  rfl

theorem modRevision_without {key : String} (hkey : hidden key = false) :
    (s.without hidden).modRevision key = s.modRevision key := by
  rw [modRevision, modRevision, get_without hkey]

end Store

section Within

variable (own : String → Prop)

def Range.Within (range : Range) : Prop := ∀ key, range.contains key = true → own key

def Cmp.Within : Cmp V → Prop
  | .modRevision key _ => own key
  | .value key _ => own key

def Op.Within : Op V → Prop
  | .put key _ => own key
  | .delete range => range.Within own
  | .get range => range.Within own

def RequestOp.Within : RequestOp V → Prop
  | .op o => o.Within own
  | .txn cmps thens elses =>
    (∀ cmp ∈ cmps, cmp.Within own) ∧ (∀ op ∈ thens, op.Within own) ∧ ∀ op ∈ elses, op.Within own

/-- A transaction looks at keys of a territory only, and puts and deletes only
there. -/
structure Txn.Within (t : Txn V) : Prop where
  cmps : ∀ cmp ∈ t.cmps, cmp.Within own
  thens : ∀ req ∈ t.thens, req.Within own
  elses : ∀ req ∈ t.elses, req.Within own

end Within

variable {own : String → Prop} {hidden : String → Bool}

theorem Txn.Within.flat {cmps : List (Cmp V)} {thens elses : List (Op V)} (hcmps : ∀ cmp ∈ cmps, cmp.Within own)
    (hthens : ∀ op ∈ thens, op.Within own) (helses : ∀ op ∈ elses, op.Within own) :
    (Txn.flat cmps thens elses).Within own := by
  refine ⟨hcmps, ?_, ?_⟩ <;> intro req hreq <;> obtain ⟨op, hop, rfl⟩ := List.mem_map.mp hreq
  · exact hthens op hop
  · exact helses op hop

def Draft.without (d : Draft V) (hidden : String → Bool) : Draft V where
  kvs := d.kvs.filterKeys fun key => !hidden key
  events := d.events

section Without

variable (hdisjoint : ∀ key, own key → hidden key = false)

include hdisjoint

theorem Range.Within.filterKeys {range : Range} (h : range.Within own) (m : Map String (KeyValue V)) :
    (m.filterKeys fun key => !hidden key).filterKeys range.contains = m.filterKeys range.contains := by
  rw [filterKeys_filterKeys]
  congr 1
  funext key
  cases hkey : range.contains key with
  | false => exact Bool.and_false _
  | true =>
    rw [hdisjoint key (h key hkey)]
    rfl

/-- Reading a range of the territory does not see what lies outside. -/
theorem Store.range_without {s : Store V} {range : Range} (h : range.Within own) :
    (s.without hidden).range range = s.range range := by
  unfold Store.range
  exact congrArg Map.toList (h.filterKeys hdisjoint s.kvs)

theorem Op.apply_without {op : Op V} (h : op.Within own) (revision : Int) (d : Draft V) :
    op.apply revision (d.without hidden) =
      ((op.apply revision d).1.without hidden, (op.apply revision d).2) := by
  cases op with
  | put key value =>
    have hkey : (!hidden key) = true := by
      rw [hdisjoint key h]
      rfl
    have hinsert : Map.filterKeys (d.kvs.insert key ⟨value, revision⟩) (fun key => !hidden key) =
        (d.kvs.filterKeys fun key => !hidden key).insert key ⟨value, revision⟩ := filterKeys_insert _ hkey _
    have hlookup : (d.without hidden).kvs.lookup key = d.kvs.lookup key := by
      rw [Draft.without, Map.lookup_filterKeys, if_pos hkey]
    simp only [Op.apply, Draft.put, hlookup]
    simp only [Draft.without, hinsert]
  | delete range =>
    have hrange : (d.without hidden).kvs.filterKeys range.contains = d.kvs.filterKeys range.contains :=
      Range.Within.filterKeys hdisjoint h d.kvs
    simp only [Op.apply, Draft.delete, hrange]
    simp only [Draft.without, filterKeys_filterKeys, Bool.and_comm]
  | get range =>
    have hrange : (d.without hidden).kvs.filterKeys range.contains = d.kvs.filterKeys range.contains :=
      Range.Within.filterKeys hdisjoint h d.kvs
    simp only [Op.apply, hrange]

theorem applyOps_without {ops : List (Op V)} (h : ∀ op ∈ ops, op.Within own) (revision : Int) (d : Draft V) :
    applyOps revision (d.without hidden) ops =
      ((applyOps revision d ops).1.without hidden, (applyOps revision d ops).2) := by
  induction ops generalizing d with
  | nil => rfl
  | cons op ops ih =>
    obtain ⟨hop, hops⟩ := List.forall_mem_cons.mp h
    simp only [applyOps, Op.apply_without hdisjoint hop, ih hops]

variable [DecidableEq V] {s : Store V}

theorem Cmp.holds_without {cmp : Cmp V} (h : cmp.Within own) : cmp.holds (s.without hidden) = cmp.holds s := by
  cases cmp with
  | modRevision key revision => rw [Cmp.holds, Cmp.holds, Store.modRevision_without (hdisjoint key h)]
  | value key value => rw [Cmp.holds, Cmp.holds, Store.get_without (hdisjoint key h)]

theorem cmpsHold_without {cmps : List (Cmp V)} (h : ∀ cmp ∈ cmps, cmp.Within own) :
    cmpsHold (s.without hidden) cmps = cmpsHold s cmps := by
  induction cmps with
  | nil => rfl
  | cons cmp cmps ih =>
    obtain ⟨hcmp, hcmps⟩ := List.forall_mem_cons.mp h
    simp only [cmpsHold, List.all_cons] at ih ⊢
    rw [Cmp.holds_without hdisjoint hcmp, ih hcmps]

theorem RequestOp.apply_without {req : RequestOp V} (h : req.Within own) (d : Draft V) :
    req.apply (s.without hidden) (d.without hidden) =
      ((req.apply s d).1.without hidden, (req.apply s d).2) := by
  cases req with
  | op op =>
    simp only [RequestOp.apply]
    rw [show (s.without hidden).revision = s.revision from rfl, Op.apply_without hdisjoint h]
  | txn cmps thens elses =>
    obtain ⟨hcmps, hthens, helses⟩ := h
    have hops : ∀ op ∈ if cmpsHold s cmps = true then thens else elses, op.Within own := by
      split
      · exact hthens
      · exact helses
    simp only [RequestOp.apply, cmpsHold_without hdisjoint hcmps]
    rw [show (s.without hidden).revision = s.revision from rfl, applyOps_without hdisjoint hops]

theorem applyRequests_without {reqs : List (RequestOp V)} (h : ∀ req ∈ reqs, req.Within own) (d : Draft V) :
    applyRequests (s.without hidden) (d.without hidden) reqs =
      ((applyRequests s d reqs).1.without hidden, (applyRequests s d reqs).2) := by
  induction reqs generalizing d with
  | nil => rfl
  | cons req reqs ih =>
    obtain ⟨hreq, hreqs⟩ := List.forall_mem_cons.mp h
    simp only [applyRequests, RequestOp.apply_without hdisjoint hreq, ih hreqs]

end Without

variable [DecidableEq V] {s : Store V}

namespace Txn.Within

variable {t : Txn V}

theorem branch (h : t.Within own) (s : Store V) : ∀ req ∈ t.branch s, req.Within own := by
  unfold Txn.branch
  split
  · exact h.thens
  · exact h.elses

theorem branch_without (h : t.Within own) (hdisjoint : ∀ key, own key → hidden key = false) :
    t.branch (s.without hidden) = t.branch s := by
  rw [Txn.branch, Txn.branch, cmpsHold_without hdisjoint h.cmps]

theorem draft_without (h : t.Within own) (hdisjoint : ∀ key, own key → hidden key = false) :
    t.draft (s.without hidden) = (t.draft s).without hidden := by
  rw [Txn.draft, Txn.draft, h.branch_without hdisjoint]
  exact congrArg Prod.fst (applyRequests_without hdisjoint (h.branch s) ⟨s.kvs, []⟩)

theorem next_without (h : t.Within own) (hdisjoint : ∀ key, own key → hidden key = false) :
    t.next (s.without hidden) = (t.next s).without hidden := by
  have hdraft := h.draft_without hdisjoint (s := s)
  have hevents : (t.draft (s.without hidden)).events = (t.draft s).events := by
    rw [hdraft]
    rfl
  unfold Txn.next
  rw [hevents]
  by_cases hempty : (t.draft s).events.isEmpty = true
  · simp only [hempty, if_true]
  · simp only [hempty]
    exact Store.eq_of_kvs (congrArg Draft.kvs hdraft) rfl

/-- A transaction does the same and answers the same without the keys that lie
outside its territory. -/
theorem send_without (h : t.Within own) (hdisjoint : ∀ key, own key → hidden key = false) (fate : Fate) :
    t.send fate (s.without hidden) = ((t.send fate s).1, (t.send fate s).2.without hidden) := by
  have hresponses : (applyRequests (s.without hidden) ⟨(s.without hidden).kvs, []⟩ (t.branch s)).2 =
      (applyRequests s ⟨s.kvs, []⟩ (t.branch s)).2 := by
    change (applyRequests (s.without hidden) (Draft.without ⟨s.kvs, []⟩ hidden) (t.branch s)).2 = _
    rw [applyRequests_without hdisjoint (h.branch s)]
  unfold Txn.send Txn.commit
  rw [h.next_without hdisjoint, h.branch_without hdisjoint, hresponses, cmpsHold_without hdisjoint h.cmps]
  cases t.accepted with
  | false => rfl
  | true =>
    cases fate with
    | delivered => rfl
    | refused => rfl
    | unknown applied => cases applied <;> rfl

theorem ops (h : t.Within own) (s : Store V) : ∀ op ∈ t.ops s, op.Within own := by
  intro op hop
  obtain ⟨req, hreq, hop⟩ := List.mem_flatMap.mp hop
  have hwithin := h.branch s req hreq
  cases req with
  | op o =>
    rw [List.mem_singleton.mp hop]
    exact hwithin
  | txn cmps thens elses =>
    dsimp only at hop
    split at hop
    · exact hwithin.2.1 op hop
    · exact hwithin.2.2 op hop

theorem not_touches (h : t.Within own) (s : Store V) {key : String} (hkey : ¬own key) : ¬Touches (t.ops s) key := by
  rintro (hput | ⟨range, hrange, hcontains⟩)
  · obtain ⟨value, hput⟩ := mem_putKeys.mp hput
    exact hkey (h.ops s _ hput)
  · exact hkey (h.ops s _ (mem_deleteRanges.mp hrange) key hcontains)

/-- A transaction leaves what lies outside its territory alone. -/
theorem send_get (h : t.Within own) (fate : Fate) (s : Store V) {key : String} (hkey : ¬own key) :
    (t.send fate s).2.get key = s.get key := by
  have hnext := Txn.next_get_of_not_touches (h.not_touches s hkey)
  rcases t.send_cases fate s with ⟨cause, hsend⟩ | ⟨-, hsend⟩ | ⟨-, s', rfl | rfl, hsend⟩ <;> rw [hsend]
  · exact hnext
  · exact hnext

end Txn.Within

section Kept

variable {keep : String → Bool}

omit [DecidableEq V] in
theorem filterKeys_insert_of_not (m : Map String (KeyValue V)) {key : String} (hkey : keep key = false)
    (kv : KeyValue V) : Map.filterKeys (m.insert key kv) keep = m.filterKeys keep := by
  apply AList.ext
  simp only [Map.filterKeys, AList.entries_insert]
  rw [List.filter_cons_of_neg (by rw [hkey]; exact Bool.false_ne_true)]
  induction m.entries with
  | nil => rfl
  | cons entry entries ih =>
    by_cases hentry : key = entry.1
    · rw [List.kerase_cons_eq hentry, List.filter_cons_of_neg]
      rw [← hentry, hkey]
      exact Bool.false_ne_true
    · rw [List.kerase_cons_ne hentry, List.filter_cons, List.filter_cons, ih]

omit [DecidableEq V] in
theorem Op.apply_kept {op : Op V} (h : op.Within own) (hkeep : ∀ key, keep key = true → ¬own key)
    (revision : Int) (d : Draft V) : (op.apply revision d).1.kvs.filterKeys keep = d.kvs.filterKeys keep := by
  cases op with
  | put key value =>
    refine filterKeys_insert_of_not d.kvs ?_ _
    rw [← Bool.not_eq_true]
    exact fun hkey => hkeep key hkey h
  | delete range =>
    change (d.kvs.filterKeys fun key => !range.contains key).filterKeys keep = _
    rw [filterKeys_filterKeys]
    congr 1
    funext key
    cases hkey : keep key with
    | false => exact Bool.and_false _
    | true =>
      have hcontains : range.contains key = false := by
        rw [← Bool.not_eq_true]
        exact fun hcontains => hkeep key hkey (h key hcontains)
      rw [hcontains]
      rfl
  | get range => rfl

omit [DecidableEq V] in
theorem applyOps_kept {ops : List (Op V)} (h : ∀ op ∈ ops, op.Within own)
    (hkeep : ∀ key, keep key = true → ¬own key) (revision : Int) (d : Draft V) :
    (applyOps revision d ops).1.kvs.filterKeys keep = d.kvs.filterKeys keep := by
  induction ops generalizing d with
  | nil => rfl
  | cons op ops ih =>
    obtain ⟨hop, hops⟩ := List.forall_mem_cons.mp h
    exact (ih hops _).trans (Op.apply_kept hop hkeep revision d)

omit [DecidableEq V] in
theorem Store.filter_range (s : Store V) (range : Range) (keep : String → Bool) :
    (s.range range).filter (fun entry => keep entry.1) =
      ((s.kvs.filterKeys keep).filterKeys range.contains).toList := by
  rw [filterKeys_filterKeys, Store.range, Map.toList, Map.toList, List.filter_map]
  congr 1
  change List.filter _ (List.filter _ s.kvs.entries) = List.filter _ s.kvs.entries
  rw [List.filter_filter]
  rfl

/-- The entries of a range that lie outside the territory of a transaction are
read as before. -/
theorem Applied.filter_range {ops : List (Op V)} {s s' : Store V} (h : Applied ops s s')
    (hops : ∀ op ∈ ops, op.Within own) (hkeep : ∀ key, keep key = true → ¬own key) (range : Range) :
    (s'.range range).filter (fun entry => keep entry.1) = (s.range range).filter (fun entry => keep entry.1) := by
  obtain ⟨t, -, rfl, rfl⟩ := h
  have hkept : (t.next s).kvs.filterKeys keep = s.kvs.filterKeys keep := by
    unfold Txn.next
    split
    · rfl
    · change (t.draft s).kvs.filterKeys keep = _
      rw [Txn.draft_eq]
      exact applyOps_kept hops hkeep _ _
  rw [Store.filter_range, Store.filter_range, hkept]

end Kept

/-- An operation that neither sees nor moves what lies outside a territory. -/
structure Framed {α : Type} (own : String → Prop) (f : Store V → α × Store V) : Prop where
  without : ∀ (s : Store V) (hidden : String → Bool), (∀ key, own key → hidden key = false) →
    f (s.without hidden) = ((f s).1, (f s).2.without hidden)
  get : ∀ (s : Store V) (key : String), ¬own key → (f s).2.get key = s.get key

namespace Framed

variable {α β : Type}

omit [DecidableEq V] in
theorem pure (a : α) : Framed own fun s : Store V => (a, s) := ⟨fun _ _ _ => rfl, fun _ _ _ => rfl⟩

theorem send {t : Txn V} (h : t.Within own) (fate : Fate) : Framed own fun s => t.send fate s :=
  ⟨fun _ _ hdisjoint => h.send_without hdisjoint fate, fun s _ hkey => h.send_get fate s hkey⟩

omit [DecidableEq V] in
/-- What is made of an answer does not matter. -/
theorem map {f : Store V → α × Store V} (h : Framed own f) {g : Store V → β × Store V} (post : α → β)
    (hg : ∀ s, g s = (post (f s).1, (f s).2)) : Framed own g where
  without s hidden hdisjoint := by rw [hg, hg, h.without s hidden hdisjoint]
  get s key hkey := by rw [hg, h.get s key hkey]

end Framed

end etcd
