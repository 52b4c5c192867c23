import ShardManager.Etcd.History

open golang

namespace etcd

variable {V α : Type}

/-- The response to a delete that found something to remove. -/
def Response.removes : Response V → Bool
  | .op (.deleteRange deleted) => decide (0 < deleted)
  | _ => false

/-- What the responses say was removed, for one response after another. -/
def removedOf : List α → List (Response V) → List α
  | a :: rest, response :: responses =>
    if response.removes then a :: removedOf rest responses else removedOf rest responses
  | _, _ => []

@[simp] theorem removedOf_nil (as : List α) : removedOf as ([] : List (Response V)) = [] := by
  cases as <;> rfl

theorem removedOf_append {as : List α} {first : List (Response V)} (h : first.length ≤ as.length)
    (second : List (Response V)) :
    removedOf as (first ++ second) = removedOf as first ++ removedOf (as.drop first.length) second := by
  induction first generalizing as with
  | nil => simp
  | cons response first ih =>
    cases as with
    | nil => simp at h
    | cons a rest =>
      have hrest : removedOf rest (first ++ second) =
          removedOf rest first ++ removedOf (rest.drop first.length) second := ih (by simpa using h)
      simp only [List.cons_append, removedOf, List.length_cons, List.drop_succ_cons]
      split
      · rw [hrest, List.cons_append]
      · exact hrest

/-- Only as many names count as there are responses. -/
theorem removedOf_take (as : List α) (responses : List (Response V)) :
    removedOf (as.take responses.length) responses = removedOf as responses := by
  induction responses generalizing as with
  | nil => simp
  | cons response responses ih =>
    cases as with
    | nil => rfl
    | cons a rest =>
      simp only [List.length_cons, List.take_succ_cons, removedOf]
      rw [ih]

/-- What was removed, by position. -/
theorem removedOf_eq (as : List α) (responses : List (Response V)) :
    removedOf as responses = ((as.zip (responses.map Response.removes)).filter Prod.snd).map Prod.fst := by
  induction responses generalizing as with
  | nil => simp
  | cons response responses ih =>
    cases as with
    | nil => rfl
    | cons a rest =>
      rw [removedOf, ih, List.map_cons, List.zip_cons_cons]
      cases hremoves : response.removes <;> simp

section Responses

/-- Some key of the first draft is gone in the second. -/
def Draft.loses (d d' : Draft V) : Bool := d.kvs.keys.any fun key => decide (key ∉ d'.kvs)

/-- For each operation whether it removes a key. -/
def removals (revision : Int) : Draft V → List (Op V) → List Bool
  | _, [] => []
  | d, op :: ops => d.loses (op.apply revision d).1 :: removals revision (op.apply revision d).1 ops

/-- The responses to operations that a transaction begins with. -/
def responsesTo (s : Store V) (ops : List (Op V)) : List (Response V) :=
  (applyOps (s.revision + 1) ⟨s.kvs, []⟩ ops).2.map .op

theorem Draft.loses_iff {d d' : Draft V} :
    d.loses d' = true ↔ ∃ key kv, d.kvs.lookup key = some kv ∧ d'.kvs.lookup key = none := by
  rw [Draft.loses, List.any_eq_true]
  constructor
  · rintro ⟨key, hkey, hgone⟩
    obtain ⟨kv, hlookup⟩ := Map.mem_iff_exists_lookup.mp (AList.mem_keys.mp hkey)
    exact ⟨key, kv, hlookup, AList.lookup_eq_none.mpr (of_decide_eq_true hgone)⟩
  · rintro ⟨key, kv, hlookup, hgone⟩
    exact ⟨key, AList.mem_keys.mpr (Map.mem_iff_exists_lookup.mpr ⟨kv, hlookup⟩),
      decide_eq_true (AList.lookup_eq_none.mp hgone)⟩

/-- The response of an operation tells whether it removed a key. -/
theorem removes_apply (revision : Int) (d : Draft V) (op : Op V) :
    (Response.op (op.apply revision d).2).removes = d.loses (op.apply revision d).1 := by
  rw [Bool.eq_iff_iff, Draft.loses_iff]
  cases op with
  | put key value =>
    refine ⟨fun h => (Bool.false_ne_true h).elim, ?_⟩
    rintro ⟨key', kv, hlookup, hgone⟩
    change (d.kvs.insert key _).lookup key' = none at hgone
    rw [Map.lookup_insert_eq] at hgone
    split at hgone
    · cases hgone
    · rw [hlookup] at hgone
      cases hgone
  | get range =>
    refine ⟨fun h => (Bool.false_ne_true h).elim, ?_⟩
    rintro ⟨key', kv, hlookup, hgone⟩
    cases hlookup.symm.trans hgone
  | delete range =>
    change decide (0 < (d.kvs.filterKeys range.contains).entries.length) = true ↔ ∃ key kv,
      d.kvs.lookup key = some kv ∧ (d.kvs.filterKeys fun key => !range.contains key).lookup key = none
    rw [decide_eq_true_iff]
    constructor
    · intro hpos
      obtain ⟨⟨key, kv⟩, hentry⟩ := List.exists_mem_of_length_pos hpos
      have hmem : (key, kv) ∈ (d.kvs.filterKeys range.contains).toList := List.mem_map.mpr ⟨⟨key, kv⟩, hentry, rfl⟩
      rw [Map.mem_toList_iff, Map.lookup_filterKeys] at hmem
      split at hmem
      · rename_i hcontains
        refine ⟨key, kv, hmem, ?_⟩
        rw [Map.lookup_filterKeys, hcontains]
        rfl
      · cases hmem
    · rintro ⟨key, kv, hlookup, hgone⟩
      have hcontains : range.contains key = true := by
        by_contra hout
        rw [Map.lookup_filterKeys, Bool.eq_false_of_not_eq_true hout, Bool.not_false, if_pos rfl, hlookup] at hgone
        cases hgone
      have hmem : (key, kv) ∈ (d.kvs.filterKeys range.contains).toList := by
        rw [Map.mem_toList_iff, Map.lookup_filterKeys, if_pos hcontains, hlookup]
      obtain ⟨entry, hentry, -⟩ := List.mem_map.mp hmem
      exact List.length_pos_of_mem hentry

theorem length_applyOps (revision : Int) (d : Draft V) (ops : List (Op V)) :
    (applyOps revision d ops).2.length = ops.length := by
  induction ops generalizing d with
  | nil => rfl
  | cons op ops ih => exact congrArg (· + 1) (ih _)

theorem applyOps_append_responses (revision : Int) (d : Draft V) (ops ops' : List (Op V)) :
    (applyOps revision d (ops ++ ops')).2 =
      (applyOps revision d ops).2 ++ (applyOps revision (applyOps revision d ops).1 ops').2 := by
  induction ops generalizing d with
  | nil => rfl
  | cons op ops ih => exact congrArg _ (ih _)

@[simp] theorem length_responsesTo (s : Store V) (ops : List (Op V)) : (responsesTo s ops).length = ops.length := by
  rw [responsesTo, List.length_map, length_applyOps]

/-- What comes after them does not change the responses. -/
theorem take_responsesTo (s : Store V) (ops ops' : List (Op V)) :
    (responsesTo s (ops ++ ops')).take ops.length = responsesTo s ops := by
  rw [responsesTo, applyOps_append_responses, List.map_append]
  exact List.take_left' (length_responsesTo s ops)

theorem removes_responsesTo (s : Store V) (ops : List (Op V)) :
    (responsesTo s ops).map Response.removes = removals (s.revision + 1) ⟨s.kvs, []⟩ ops := by
  have hdraft : ∀ d : Draft V, ((applyOps (s.revision + 1) d ops).2.map .op).map Response.removes =
      removals (s.revision + 1) d ops := by
    induction ops with
    | nil => exact fun _ => rfl
    | cons op ops ih =>
      intro d
      rw [removals, ← ih, ← removes_apply]
      rfl
  exact hdraft ⟨s.kvs, []⟩

theorem applyRequests_op [DecidableEq V] (s : Store V) (d : Draft V) (ops : List (Op V)) :
    (applyRequests s d (ops.map .op)).2 = (applyOps (s.revision + 1) d ops).2.map .op := by
  induction ops generalizing d with
  | nil => rfl
  | cons op ops ih => exact congrArg _ (ih _)

/-- A transaction that commits. -/
theorem send_delivered [DecidableEq V] {cmps : List (Cmp V)} {ops : List (Op V)} {s : Store V}
    (haccepted : (Txn.flat cmps ops []).accepted = true) (hholds : cmpsHold s cmps = true) :
    (Txn.flat cmps ops []).send .delivered s = (.ok ⟨true, responsesTo s ops⟩, (Txn.flat cmps ops []).next s) := by
  have hbranch : (Txn.flat cmps ops []).branch s = ops.map .op := by
    rw [Txn.branch, Txn.flat, if_pos hholds]
  have hcommit : (Txn.flat cmps ops []).commit s = some ⟨(Txn.flat cmps ops []).next s,
      ((Txn.flat cmps ops []).draft s).events, ⟨true, responsesTo s ops⟩⟩ := by
    rw [Txn.commit, if_pos haccepted, hbranch, applyRequests_op]
    simp [Txn.flat, hholds, responsesTo]
  rw [Txn.send, hcommit]

end Responses

section Deletes

variable [DecidableEq V] {key : α → String}

omit [DecidableEq V] in
/-- A delete of one key removes something if the key is there. -/
theorem removes_delete_key (revision : Int) (d : Draft V) (k : String) :
    (Response.op ((Op.delete (.key k) : Op V).apply revision d).2).removes = (d.kvs.lookup k).isSome := by
  rw [removes_apply, Bool.eq_iff_iff, Draft.loses_iff, Option.isSome_iff_exists]
  change (∃ key kv, d.kvs.lookup key = some kv ∧
    (d.kvs.filterKeys fun key => !(Range.key k).contains key).lookup key = none) ↔ _
  constructor
  · rintro ⟨key, kv, hlookup, hgone⟩
    have hkey : key = k := by
      by_contra hne
      rw [Map.lookup_filterKeys, if_pos (by simp [Range.contains, hne]), hlookup] at hgone
      cases hgone
    exact ⟨kv, hkey ▸ hlookup⟩
  · rintro ⟨kv, hlookup⟩
    refine ⟨k, kv, hlookup, ?_⟩
    rw [Map.lookup_filterKeys, if_neg (by simp [Range.contains])]

/-- A branch that deletes keys one by one and then does something else: each
key that was there is removed by the first delete of it, and by no other. -/
theorem applyRequests_deletes [DecidableEq α] (hinj : Function.Injective key) (s : Store V) (d : Draft V)
    (as : List α) (extra : List (Op V)) :
    ∃ responses rest, (applyRequests s d ((as.map (fun a => Op.delete (.key (key a))) ++ extra).map .op)).2 =
        responses ++ rest ∧ responses.length = as.length ∧ rest.length = extra.length ∧
      ∀ a, (removedOf as responses).count a = if a ∈ as ∧ (d.kvs.lookup (key a)).isSome then 1 else 0 := by
  induction as generalizing d with
  | nil =>
    have hrest := applyRequests_op s d extra
    exact ⟨[], _, hrest, rfl, by rw [List.length_map, length_applyOps], by simp⟩
  | cons a as ih =>
    let op : Op V := .delete (.key (key a))
    obtain ⟨responses, rest, hresponses, hlength, hrest, hcount⟩ := ih (op.apply (s.revision + 1) d).1
    refine ⟨.op (op.apply (s.revision + 1) d).2 :: responses, rest, ?_, by simp [hlength], hrest, ?_⟩
    · exact congrArg _ hresponses
    intro b
    have hlookup : (op.apply (s.revision + 1) d).1.kvs.lookup (key b) =
        if b = a then none else d.kvs.lookup (key b) := by
      change (d.kvs.filterKeys _).lookup (key b) = _
      rw [Map.lookup_filterKeys]
      simp only [Range.contains, hinj.eq_iff]
      by_cases hba : b = a <;> simp [hba]
    have hrestCount := hcount b
    rw [hlookup] at hrestCount
    simp only [removedOf, op, removes_delete_key]
    by_cases hba : b = a
    · subst hba
      simp only [if_true, Option.isSome_none, Bool.false_eq_true, and_false, if_false] at hrestCount
      by_cases hpresent : (d.kvs.lookup (key b)).isSome = true
      · simp [hpresent, hrestCount]
      · simp [hpresent, hrestCount]
    · simp only [hba, if_false] at hrestCount
      have hmem : b ∈ a :: as ↔ b ∈ as := by simp [hba]
      simp only [hmem, ← hrestCount]
      split
      · exact List.count_cons_of_ne (Ne.symm hba)
      · rfl

end Deletes

end etcd
