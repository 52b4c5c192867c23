import Mathlib.Data.List.AList

namespace golang

/-- A Go map: one value per key. Lookups, insertion and deletion are those of
Mathlib's association lists; the order of the entries carries no meaning. -/
abbrev Map (κ β : Type) := AList (fun _ : κ => β)

/-- A Go `map[κ]struct{}`. -/
abbrev KeySet (κ : Type) := Map κ Unit

namespace Map

variable {κ β γ : Type}

def toList (m : Map κ β) : List (κ × β) :=
  m.entries.map fun e => (e.1, e.2)

theorem map_fst_toList (m : Map κ β) : m.toList.map Prod.fst = m.keys := by
  simp [toList, AList.keys, List.keys, Function.comp_def]

theorem nodup_map_fst_toList (m : Map κ β) : (m.toList.map Prod.fst).Nodup := by
  rw [map_fst_toList]
  exact m.keys_nodup

variable [DecidableEq κ]

theorem mem_toList_iff {m : Map κ β} {k : κ} {b : β} :
    (k, b) ∈ m.toList ↔ m.lookup k = some b := by
  rw [← Option.mem_def, AList.mem_lookup_iff]
  constructor
  · intro h
    obtain ⟨⟨k', b'⟩, he, heq⟩ := List.mem_map.mp h
    cases heq
    exact he
  · intro h
    exact List.mem_map.mpr ⟨_, h, rfl⟩

/-- Membership of a key is the existence of its value. -/
theorem mem_iff_exists_lookup {m : Map κ β} {k : κ} : k ∈ m ↔ ∃ b, m.lookup k = some b := by
  rw [← AList.lookup_isSome, Option.isSome_iff_exists]

theorem lookup_insert_eq (m : Map κ β) (k k' : κ) (b : β) :
    (m.insert k b).lookup k' = if k' = k then some b else m.lookup k' := by
  by_cases h : k' = k
  · subst h
    simp
  · rw [if_neg h, AList.lookup_insert_ne h]

/-- Overwriting the value of a present key keeps the keys. -/
theorem mem_insert_iff_of_mem {m : Map κ β} {k k' : κ} {b : β} (h : k ∈ m) :
    k' ∈ m.insert k b ↔ k' ∈ m := by
  rw [AList.mem_insert]
  exact or_iff_right_of_imp (fun heq => heq ▸ h)

theorem lookup_erase_eq (m : Map κ β) (k k' : κ) :
    (m.erase k).lookup k' = if k' = k then none else m.lookup k' := by
  by_cases h : k' = k
  · subst h
    simp
  · rw [if_neg h, AList.lookup_erase_ne h]

theorem erase_toList_perm {m : Map κ β} {k : κ} {b : β} (h : m.lookup k = some b) :
    m.toList.Perm ((k, b) :: toList (m.erase k)) := by
  have hmem : (⟨k, b⟩ : Sigma fun _ : κ => β) ∈ m.entries := AList.mem_lookup_iff.mp h
  have hperm : m.entries.Perm (⟨k, b⟩ :: (m.erase k).entries) := by
    obtain ⟨b', l₁, l₂, hnot, hentries, herase⟩ :=
      List.exists_of_kerase (List.mem_keys_of_mem hmem)
    have hb : b' = b := by
      apply m.nodupKeys.eq_of_mk_mem (a := k) _ hmem
      simp [hentries]
    subst hb
    change m.entries.Perm (_ :: List.kerase k m.entries)
    rw [herase, hentries]
    exact List.perm_middle
  simpa [toList] using hperm.map (fun e => (e.1, e.2))

/-- Overwriting the values of two present keys changes nothing else. -/
theorem insert_insert_toList_perm {m : Map κ β} {k k' : κ} (hne : k ≠ k') {b b' : β} (h : m.lookup k = some b)
    (h' : m.lookup k' = some b') : ∃ rest, m.toList.Perm ((k, b) :: (k', b') :: rest) ∧
      ∀ c c', toList ((m.insert k c).insert k' c') = (k', c') :: (k, c) :: rest := by
  refine ⟨toList ((m.erase k).erase k'), ?_, fun c c' => ?_⟩
  · have herase : (m.erase k).lookup k' = some b' := by rw [lookup_erase_eq, if_neg hne.symm, h']
    exact (erase_toList_perm h).trans ((erase_toList_perm herase).cons _)
  · have hcons : List.kerase k' ((⟨k, c⟩ : Sigma fun _ : κ => β) :: List.kerase k m.entries) =
        ⟨k, c⟩ :: List.kerase k' (List.kerase k m.entries) := List.kerase_cons_ne hne.symm
    rw [toList, AList.entries_insert, AList.entries_insert, hcons]
    rfl

/-- Keep the entries whose key satisfies a predicate. -/
def filterKeys (m : Map κ β) (p : κ → Bool) : Map κ β where
  entries := m.entries.filter fun e => p e.1
  nodupKeys := m.nodupKeys.sublist List.filter_sublist

theorem lookup_filterKeys (m : Map κ β) (p : κ → Bool) (k : κ) :
    (m.filterKeys p).lookup k = if p k then m.lookup k else none := by
  have hiff : ∀ b, (m.filterKeys p).lookup k = some b ↔ p k = true ∧ m.lookup k = some b := by
    intro b
    rw [← Option.mem_def, AList.mem_lookup_iff, ← Option.mem_def, AList.mem_lookup_iff]
    simp [filterKeys, and_comm]
  by_cases hp : p k = true
  · rw [if_pos hp]
    apply Option.ext
    intro b
    simpa [hp] using hiff b
  · rw [if_neg hp]
    apply Option.eq_none_iff_forall_ne_some.mpr
    intro b hb
    exact hp ((hiff b).mp hb).1

theorem mem_filterKeys {m : Map κ β} {p : κ → Bool} {k : κ} : k ∈ m.filterKeys p ↔ p k = true ∧ k ∈ m := by
  rw [mem_iff_exists_lookup, mem_iff_exists_lookup, lookup_filterKeys]
  cases p k <;> simp

/-- Repeated assignment `m[k] = b`, in list order. -/
def ofList (l : List (κ × β)) : Map κ β :=
  l.foldl (fun m e => m.insert e.1 e.2) ∅

theorem mem_foldl_insert (l : List (κ × β)) (m : Map κ β) (k : κ) :
    k ∈ l.foldl (fun m e => m.insert e.1 e.2) m ↔ k ∈ l.map Prod.fst ∨ k ∈ m := by
  induction l generalizing m with
  | nil => simp
  | cons e l ih =>
    rw [List.foldl_cons, ih, AList.mem_insert, List.map_cons, List.mem_cons]
    tauto

theorem mem_ofList {l : List (κ × β)} {k : κ} : k ∈ ofList l ↔ k ∈ l.map Prod.fst := by
  simp [ofList, mem_foldl_insert]

theorem lookup_foldl_insert_of_not_mem (l : List (κ × β)) (m : Map κ β) {k : κ}
    (h : k ∉ l.map Prod.fst) :
    (l.foldl (fun m e => m.insert e.1 e.2) m).lookup k = m.lookup k := by
  induction l generalizing m with
  | nil => rfl
  | cons e l ih =>
    rw [List.map_cons, List.mem_cons, not_or] at h
    rw [List.foldl_cons, ih _ h.2, AList.lookup_insert_ne h.1]

theorem lookup_foldl_insert_of_mem (l : List (κ × β)) (m : Map κ β) {k : κ} {b : β}
    (hnodup : (l.map Prod.fst).Nodup) (h : (k, b) ∈ l) :
    (l.foldl (fun m e => m.insert e.1 e.2) m).lookup k = some b := by
  induction l generalizing m with
  | nil => simp at h
  | cons e l ih =>
    rw [List.map_cons, List.nodup_cons] at hnodup
    rw [List.foldl_cons]
    rcases List.mem_cons.mp h with rfl | h
    · rw [lookup_foldl_insert_of_not_mem _ _ hnodup.1]
      simp
    · exact ih _ hnodup.2 h

theorem mem_of_lookup_foldl_insert (l : List (κ × β)) (m : Map κ β) {k : κ} {b : β}
    (h : (l.foldl (fun m e => m.insert e.1 e.2) m).lookup k = some b) : (k, b) ∈ l ∨ m.lookup k = some b := by
  induction l generalizing m with
  | nil => exact .inr h
  | cons e l ih =>
    rcases ih _ h with hmem | hlookup
    · exact .inl (List.mem_cons_of_mem _ hmem)
    · rw [lookup_insert_eq] at hlookup
      split at hlookup
      · rename_i hk
        cases hlookup
        exact .inl (hk ▸ List.mem_cons_self)
      · exact .inr hlookup

/-- Whatever was assigned last was assigned. -/
theorem mem_of_lookup_ofList {l : List (κ × β)} {k : κ} {b : β} (h : (ofList l).lookup k = some b) :
    (k, b) ∈ l := by
  rcases mem_of_lookup_foldl_insert l ∅ h with hmem | hlookup
  · exact hmem
  · cases hlookup

/-- Assignments to distinct keys do not overwrite each other. -/
theorem lookup_ofList_iff {l : List (κ × β)} (hnodup : (l.map Prod.fst).Nodup) {k : κ} {b : β} :
    (ofList l).lookup k = some b ↔ (k, b) ∈ l :=
  ⟨mem_of_lookup_ofList, lookup_foldl_insert_of_mem l ∅ hnodup⟩

theorem toList_ofList_perm {l : List (κ × β)} (hnodup : (l.map Prod.fst).Nodup) : (ofList l).toList.Perm l := by
  refine (List.perm_ext_iff_of_nodup ?_ hnodup.of_map).mpr fun p => ?_
  · exact (nodup_map_fst_toList _).of_map
  · rw [mem_toList_iff, lookup_ofList_iff hnodup]

/-- Repeated assignments of the same value do not matter. -/
theorem lookup_ofList_iff_of_unique {l : List (κ × β)} {k : κ}
    (hunique : ∀ {b b' : β}, (k, b) ∈ l → (k, b') ∈ l → b = b') {b : β} :
    (ofList l).lookup k = some b ↔ (k, b) ∈ l := by
  refine ⟨mem_of_lookup_ofList, fun hmem => ?_⟩
  obtain ⟨b', hlookup⟩ := mem_iff_exists_lookup.mp (mem_ofList.mpr (List.mem_map_of_mem hmem))
  rw [hlookup, hunique hmem (mem_of_lookup_ofList hlookup)]

/-- A map built by visiting the entries of another one, keeping keys. -/
def filterMapEntries (m : Map κ β) (f : κ → β → Option γ) : Map κ γ :=
  ofList (m.toList.filterMap fun (k, b) => (f k b).map fun c => (k, c))

theorem lookup_filterMapEntries (m : Map κ β) (f : κ → β → Option γ) (k : κ) :
    (m.filterMapEntries f).lookup k = (m.lookup k).bind (f k) := by
  have hnodup : ((m.toList.filterMap fun (k, b) => (f k b).map fun c => (k, c)).map Prod.fst).Nodup := by
    refine List.Nodup.sublist ?_ (nodup_map_fst_toList m)
    induction m.toList with
    | nil => exact List.Sublist.refl _
    | cons e l ih =>
      obtain ⟨k, b⟩ := e
      cases hf : f k b with
      | none => simpa [List.filterMap_cons, hf] using ih.cons _
      | some c => simpa [List.filterMap_cons, hf] using ih
  refine Option.ext fun c => ?_
  rw [filterMapEntries, lookup_ofList_iff hnodup]
  simp only [List.mem_filterMap, Prod.exists, mem_toList_iff, Option.map_eq_some_iff, Prod.mk.injEq,
    Option.bind_eq_some_iff]
  constructor
  · rintro ⟨k', b, hlookup, c', hc', rfl, rfl⟩
    exact ⟨b, hlookup, hc'⟩
  · rintro ⟨b, hlookup, hc⟩
    exact ⟨k, b, hlookup, c, hc, rfl, rfl⟩

def filterMapValues (m : Map κ β) (f : β → Option γ) : Map κ γ :=
  m.filterMapEntries fun _ => f

theorem lookup_filterMapValues (m : Map κ β) (f : β → Option γ) (k : κ) :
    (m.filterMapValues f).lookup k = (m.lookup k).bind f :=
  lookup_filterMapEntries m (fun _ => f) k

end Map

/-- The order in which `range` visits the entries of a map. Go leaves it
unspecified and draws a new one for every loop, so each loop carries a label
and nothing is known beyond every entry being visited once. -/
structure RangeOrder where
  visit : String → {α : Type} → List α → List α
  visit_perm : ∀ (loop : String) {α : Type} (l : List α), (visit loop l).Perm l

namespace RangeOrder

variable {κ β : Type}

/-- The visiting order in which entries happen to be stored. -/
def stored : RangeOrder where
  visit _ _ l := l
  visit_perm _ _ _ := List.Perm.refl _

instance : Inhabited RangeOrder := ⟨stored⟩

/-- The orders drawn inside one call, told apart from those of other calls. -/
def within (order : RangeOrder) (call : String) : RangeOrder where
  visit loop _ l := order.visit (call ++ "/" ++ loop) l
  visit_perm loop _ l := order.visit_perm (call ++ "/" ++ loop) l

def range (order : RangeOrder) (loop : String) (m : Map κ β) : List (κ × β) :=
  order.visit loop m.toList

def rangeKeys (order : RangeOrder) (loop : String) (m : Map κ β) : List κ :=
  (order.range loop m).map Prod.fst

theorem range_perm (order : RangeOrder) (loop : String) (m : Map κ β) :
    (order.range loop m).Perm m.toList :=
  order.visit_perm loop _

theorem rangeKeys_perm (order : RangeOrder) (loop : String) (m : Map κ β) :
    (order.rangeKeys loop m).Perm m.keys := by
  rw [← Map.map_fst_toList]
  exact (order.range_perm loop m).map _

theorem nodup_rangeKeys (order : RangeOrder) (loop : String) (m : Map κ β) :
    (order.rangeKeys loop m).Nodup :=
  (order.rangeKeys_perm loop m).nodup_iff.mpr m.keys_nodup

@[simp] theorem mem_rangeKeys {order : RangeOrder} {loop : String} {m : Map κ β} {k : κ} :
    k ∈ order.rangeKeys loop m ↔ k ∈ m :=
  (order.rangeKeys_perm loop m).mem_iff

theorem mem_range_iff [DecidableEq κ] {order : RangeOrder} {loop : String} {m : Map κ β}
    {k : κ} {b : β} : (k, b) ∈ order.range loop m ↔ m.lookup k = some b := by
  rw [(order.range_perm loop m).mem_iff, Map.mem_toList_iff]

end RangeOrder

end golang
