import ShardManager.Etcd.Frame
import ShardManager.ExecutorStore.Metadata
import ShardManager.ExecutorStore.NamespaceWatch

open golang

namespace etcd

variable {V : Type}

/-- The content of a store after an event. -/
def Event.apply (event : Event V) (kvs : Map String (KeyValue V)) : Map String (KeyValue V) :=
  match event.kv with
  | some kv => kvs.insert event.key kv
  | none => kvs.erase event.key

theorem Event.lookup_apply (event : Event V) (kvs : Map String (KeyValue V)) (key : String) :
    (event.apply kvs).lookup key = if key = event.key then event.kv else kvs.lookup key := by
  unfold Event.apply
  cases event.kv with
  | some kv => exact Map.lookup_insert_eq ..
  | none => exact Map.lookup_erase_eq ..

/-- The events of a watch response lead from one content to another. A previous
value that comes with an event is the one before it. -/
def Leads : Map String (KeyValue V) → List (Event V) → Map String (KeyValue V) → Prop
  | kvs, [], kvs' => ∀ key, kvs'.lookup key = kvs.lookup key
  | kvs, event :: rest, kvs' => (∀ kv, event.prevKv = some kv → kvs.lookup event.key = some kv) ∧
      Leads (event.apply kvs) rest kvs'

end etcd

namespace executorstore

open etcd etcdkeys store common
open etcdtypes (Value Encoding)

variable {F : Type} [Encoding F] {pre ns : String}

section Events

/-- The value of a key as the watcher compares it. -/
def textAt (kvs : Map String (KeyValue (Value F))) (key : String) : Option String :=
  (kvs.lookup key).map fun kv => Encoding.bytes kv.value

variable {kvs kvs' : Map String (KeyValue (Value F))} {event : Event (Value F)}

/-- An event that is not noticed leaves records and metadata as they are, but
for the removal of an empty value. -/
theorem textAt_of_unnoticed (hprev : ∀ kv, event.prevKv = some kv → kvs.lookup event.key = some kv)
    (hunnoticed : isStateChange pre ns event = false) {key executorID : String} {keyType : ExecutorKeyType}
    (hparse : parseExecutorKey pre ns key = .ok (executorID, keyType))
    (htracked : keyType = .assignedState ∨ keyType = .metadata) (hne : textAt kvs key ≠ some "") :
    textAt (event.apply kvs) key = textAt kvs key := by
  rw [textAt, Event.lookup_apply]
  split
  case isFalse => rfl
  case isTrue hkey =>
    subst hkey
    have hdir := (hasPrefix_of_parse hparse).2.1
    have hkind : ¬(keyType ≠ .assignedState ∧ keyType ≠ .metadata) := by
      rintro ⟨hrecord, hmetadata⟩
      exact htracked.elim hrecord hmetadata
    unfold isStateChange at hunnoticed
    rw [if_pos hdir, hparse] at hunnoticed
    dsimp only at hunnoticed
    rw [if_neg hkind] at hunnoticed
    split at hunnoticed
    swap
    · cases hunnoticed
    rename_i hrewrite
    obtain ⟨kv, hkv⟩ := Option.isSome_iff_exists.mp hrewrite.1
    have hsame := hrewrite.2
    have hlookup := hprev kv hkv
    rw [hkv] at hsame
    rw [textAt, hlookup] at hne ⊢
    cases hnew : event.kv with
    | none =>
      rw [hnew] at hsame
      exact absurd (congrArg some hsame.symm) hne
    | some kv' =>
      rw [hnew] at hsame
      exact congrArg some hsame

theorem lookup_drained_of_unnoticed (hunnoticed : isStateChange pre ns event = false) {shardID : String}
    (hvalid : validateShardID shardID = .ok ()) :
    (event.apply kvs).lookup (buildDrainedShardKey pre ns shardID) =
      kvs.lookup (buildDrainedShardKey pre ns shardID) := by
  rw [Event.lookup_apply, if_neg]
  intro hkey
  obtain ⟨key, kv, prevKv⟩ := event
  subst hkey
  rw [isStateChange_drained hvalid] at hunnoticed
  cases hunnoticed

/-- So do all the events of a response that is not noticed. -/
theorem textAt_of_leads {events : List (Event (Value F))} (h : Leads kvs events kvs')
    (hunnoticed : hasNamespaceStateChanged pre ns events = false) {key executorID : String} {keyType : ExecutorKeyType}
    (hparse : parseExecutorKey pre ns key = .ok (executorID, keyType))
    (htracked : keyType = .assignedState ∨ keyType = .metadata) (hne : textAt kvs key ≠ some "") :
    textAt kvs' key = textAt kvs key := by
  induction events generalizing kvs with
  | nil => rw [textAt, h key, textAt]
  | cons event rest ih =>
    obtain ⟨hprev, hrest⟩ := h
    obtain ⟨hfirst, hothers⟩ := Bool.or_eq_false_iff.mp hunnoticed
    have hsame := textAt_of_unnoticed hprev hfirst hparse htracked hne
    rw [ih hrest hothers (hsame ▸ hne), hsame]

theorem lookup_drained_of_leads {events : List (Event (Value F))} (h : Leads kvs events kvs')
    (hunnoticed : hasNamespaceStateChanged pre ns events = false) {shardID : String}
    (hvalid : validateShardID shardID = .ok ()) :
    kvs'.lookup (buildDrainedShardKey pre ns shardID) = kvs.lookup (buildDrainedShardKey pre ns shardID) := by
  induction events generalizing kvs with
  | nil => exact h _
  | cons event rest ih =>
    obtain ⟨-, hrest⟩ := h
    obtain ⟨hfirst, hothers⟩ := Bool.or_eq_false_iff.mp hunnoticed
    rw [ih hrest hothers, lookup_drained_of_unnoticed hfirst hvalid]

end Events

section States

theorem getAssignmentState_isOk_iff {s : Store (Value F)} :
    (∃ state, getAssignmentState pre ns s = .ok state) ↔
      ∀ entry ∈ executorEntries pre ns s, AssignmentDecodes pre ns entry := by
  have hparse : (∃ result, parseExecutorAssignmentKVs pre ns (executorEntries pre ns s) = .ok result) ↔
      ∀ entry ∈ executorEntries pre ns s, AssignmentDecodes pre ns entry :=
    foldlM_isOk_iff parseExecutorAssignmentKV_isOk_iff
  rw [← hparse]
  constructor
  · rintro ⟨state, h⟩
    obtain ⟨result, hparse, -⟩ := bind_eq_ok_iff.mp h
    exact ⟨result, hparse⟩
  · rintro ⟨result, hparse⟩
    exact ⟨_, bind_eq_ok_iff.mpr ⟨result, hparse, rfl⟩⟩

/-- The record without the revision it was stored at. -/
def withoutRevision (state : AssignedState) : AssignedState := { state with modRevision := 0 }

/-- What subscribers track is the same: the assignments but for their revision,
the metadata of every executor and the drained shards. -/
structure SameState (state state' : AssignmentState) : Prop where
  assignments : ∀ executorID, (state'.shardAssignments.lookup executorID).map withoutRevision =
    (state.shardAssignments.lookup executorID).map withoutRevision
  metadata : ∀ executorID name, (metadataOf state'.executorMetadata executorID).lookup name =
    (metadataOf state.executorMetadata executorID).lookup name
  drained : ∀ shardID, shardID ∈ state'.drainedShards ↔ shardID ∈ state.drainedShards

variable {s s' : Store (Value F)} {state state' : AssignmentState}

/-- Where the text of a record is kept, so is what is read of it. -/
theorem assignment_of_textAt (h : Describes pre ns s state) (h' : Describes pre ns s' state')
    {executorID : String} (hid : SlashFree executorID)
    (htext : textAt s'.kvs (assignedStateKey pre ns executorID) = textAt s.kvs (assignedStateKey pre ns executorID))
    {assigned : AssignedState} (hlookup : state.shardAssignments.lookup executorID = some assigned) :
    (state'.shardAssignments.lookup executorID).map withoutRevision = some (withoutRevision assigned) := by
  obtain ⟨-, kv, record, hget, hvalue, rfl⟩ := (h.assignments executorID assigned).mp hlookup
  have hstored : textAt s.kvs (assignedStateKey pre ns executorID) = some (Encoding.bytes kv.value) :=
    Option.map_eq_some_iff.mpr ⟨kv, hget, rfl⟩
  obtain ⟨kv', hget', hbytes⟩ := Option.map_eq_some_iff.mp (htext.trans hstored)
  obtain ⟨record', hvalue'⟩ := h'.decoded hid hget'
  rw [hvalue, hvalue'] at hbytes
  have hrecord := Encoding.bytes_assignedState_inj hbytes
  have hlookup' := (h'.assignments executorID _).mpr ⟨hid, kv', record', hget', hvalue', rfl⟩
  rw [hlookup', hrecord]
  rfl

theorem textAt_assignedStateKey_ne (h : Describes pre ns s state) {executorID : String} (hid : SlashFree executorID) :
    textAt s.kvs (assignedStateKey pre ns executorID) ≠ some "" := by
  intro htext
  obtain ⟨kv, hget, hbytes⟩ := Option.map_eq_some_iff.mp htext
  obtain ⟨record, hvalue⟩ := h.decoded hid hget
  rw [hvalue] at hbytes
  exact Encoding.bytes_assignedState_ne record hbytes

theorem sameAssignments_of_textAt (h : Describes pre ns s state) (h' : Describes pre ns s' state')
    (htext : ∀ executorID, SlashFree executorID →
      textAt s'.kvs (assignedStateKey pre ns executorID) = textAt s.kvs (assignedStateKey pre ns executorID))
    (executorID : String) :
    (state'.shardAssignments.lookup executorID).map withoutRevision =
      (state.shardAssignments.lookup executorID).map withoutRevision := by
  cases hlookup : state.shardAssignments.lookup executorID with
  | some assigned =>
    have hid := ((h.assignments executorID assigned).mp hlookup).1
    exact assignment_of_textAt h h' hid (htext executorID hid) hlookup
  | none =>
    cases hlookup' : state'.shardAssignments.lookup executorID with
    | none => rfl
    | some assigned =>
      have hid := ((h'.assignments executorID assigned).mp hlookup').1
      have hback := assignment_of_textAt h' h hid (htext executorID hid).symm hlookup'
      rw [hlookup] at hback
      cases hback

theorem metadataAt_iff_textAt {executorID name value : String} : MetadataAt pre ns s executorID name value ↔
    SlashFree executorID ∧ textAt s.kvs (buildMetadataKey pre ns executorID name) = some value := by
  rw [textAt, Option.map_eq_some_iff]
  rfl

/-- A response that is not noticed leaves what subscribers track as it is, if
no metadata was empty. -/
theorem sameState_of_unnoticed (hbare : NoBareKeys pre ns s) (hbare' : NoBareKeys pre ns s')
    (h : Describes pre ns s state) (h' : Describes pre ns s' state')
    (hempty : ∀ executorID name, ¬MetadataAt pre ns s executorID name "") {events : List (Event (Value F))}
    (hleads : Leads s.kvs events s'.kvs) (hunnoticed : hasNamespaceStateChanged pre ns events = false) :
    SameState state state' := by
  refine ⟨sameAssignments_of_textAt h h' fun executorID hid => ?_, fun executorID name => ?_, fun shardID => ?_⟩
  · exact textAt_of_leads hleads hunnoticed
      (parseExecutorKey_buildExecutorKey hid ExecutorKeyType.known_assignedState) (.inl rfl)
      (textAt_assignedStateKey_ne h hid)
  · refine Option.ext fun value => ?_
    rw [h.metadata hbare, h'.metadata hbare', metadataAt_iff_textAt, metadataAt_iff_textAt]
    refine and_congr_right fun hid => ?_
    have hne : textAt s.kvs (buildMetadataKey pre ns executorID name) ≠ some "" := by
      intro htext
      exact hempty executorID name (metadataAt_iff_textAt.mpr ⟨hid, htext⟩)
    rw [textAt_of_leads hleads hunnoticed (parseExecutorKey_buildMetadataKey hid name) (.inr rfl) hne]
  · rw [h.drained, h'.drained]
    refine and_congr_right fun hvalid => ?_
    rw [Store.get, lookup_drained_of_leads hleads hunnoticed hvalid, Store.get]

/-- The store without a key. -/
abbrev withoutKey (s : Store (Value F)) (key : String) : Store (Value F) := s.without fun key' => decide (key' = key)

omit [Encoding F] in
theorem get_withoutKey (s : Store (Value F)) (key key' : String) :
    (withoutKey s key).get key' = if key' = key then none else s.get key' := by
  change (s.kvs.filterKeys fun key' => !decide (key' = key)).lookup key' = _
  rw [Map.lookup_filterKeys]
  by_cases hkey : key' = key <;> simp [hkey, Store.get]

omit [Encoding F] in
theorem get_of_get_withoutKey {key key' : String} {kv : KeyValue (Value F)} (h : (withoutKey s key).get key' = some kv) :
    s.get key' = some kv := by
  rw [get_withoutKey] at h
  split at h
  · cases h
  · exact h

omit [Encoding F] in
theorem leads_withoutKey {key : String} {kv : KeyValue (Value F)} (hget : s.get key = some kv) :
    Leads s.kvs [⟨key, none, some kv⟩] (withoutKey s key).kvs := by
  refine ⟨?_, fun key' => ?_⟩
  · rintro kv' ⟨⟩
    exact hget
  · rw [Event.lookup_apply]
    exact get_withoutKey s key key'

omit [Encoding F] in
theorem noBareKeys_withoutKey (hbare : NoBareKeys pre ns s) (key : String) : NoBareKeys pre ns (withoutKey s key) := by
  intro executorID hid
  rw [get_withoutKey, hbare executorID hid, ite_self]

theorem lookup_metadata_withoutKey {executorID name : String}
    (h : Describes pre ns (withoutKey s (buildMetadataKey pre ns executorID name)) state) (hbare : NoBareKeys pre ns s) :
    (metadataOf state.executorMetadata executorID).lookup name = none := by
  refine Option.eq_none_iff_forall_ne_some.mpr fun value hlookup => ?_
  obtain ⟨-, kv, hget, -⟩ := (h.metadata (noBareKeys_withoutKey hbare _) executorID name value).mp hlookup
  rw [get_withoutKey, if_pos rfl] at hget
  cases hget

/-- A read still succeeds without a key. -/
theorem getAssignmentState_isOk_withoutKey (h : getAssignmentState pre ns s = .ok state) (key : String) :
    ∃ state', getAssignmentState pre ns (withoutKey s key) = .ok state' := by
  refine getAssignmentState_isOk_iff.mpr fun entry hmem => ?_
  obtain ⟨hdir, hget⟩ := mem_executorEntries_iff.mp hmem
  exact getAssignmentState_isOk_iff.mp ⟨state, h⟩ entry (mem_executorEntries_iff.mpr ⟨hdir, get_of_get_withoutKey hget⟩)

/-- The removal of empty metadata as a watch reports it. -/
theorem isStateChange_removed_empty {executorID name : String} (hid : SlashFree executorID)
    {kv : KeyValue (Value F)} (hvalue : Encoding.bytes kv.value = "") :
    isStateChange pre ns ⟨buildMetadataKey pre ns executorID name, none, some kv⟩ = false := by
  have hparse : parseExecutorKey pre ns (buildMetadataKey pre ns executorID name) = .ok (executorID, .metadata) :=
    parseExecutorKey_buildMetadataKey hid name
  have hdir := (hasPrefix_of_parse hparse).2.1
  unfold isStateChange
  rw [if_pos hdir, hparse]
  dsimp only
  rw [if_neg (fun h => h.2 rfl), if_pos ⟨rfl, hvalue.symm⟩]

/-- Every change is noticed exactly if no metadata is empty before it: the
removal of an empty value looks like a rewrite. -/
theorem hasNamespaceStateChanged_complete_iff (pre ns : String) (s : Store (Value F))
    (hbare : NoBareKeys pre ns s) (state : AssignmentState) (hstate : getAssignmentState pre ns s = .ok state) :
    (∀ (events : List (Event (Value F))) (s' : Store (Value F)) (state' : AssignmentState),
      Leads s.kvs events s'.kvs → NoBareKeys pre ns s' → getAssignmentState pre ns s' = .ok state' →
      ¬SameState state state' → hasNamespaceStateChanged pre ns events = true) ↔
    ∀ executorID name, ¬MetadataAt pre ns s executorID name "" := by
  have hdescribes := (getAssignmentState_describes hstate).1
  constructor
  · intro hcomplete executorID name hempty
    obtain ⟨hid, kv, hget, hvalue⟩ := hempty
    -- The key with the empty value is removed.
    obtain ⟨state', hstate'⟩ := getAssignmentState_isOk_withoutKey hstate (buildMetadataKey pre ns executorID name)
    have hchanged : ¬SameState state state' := by
      intro hsame
      have hlookup := (hdescribes.metadata hbare executorID name "").mpr ⟨hid, kv, hget, hvalue⟩
      rw [← hsame.metadata, lookup_metadata_withoutKey (getAssignmentState_describes hstate').1 hbare] at hlookup
      cases hlookup
    have hnoticed := hcomplete _ _ state' (leads_withoutKey hget) (noBareKeys_withoutKey hbare _) hstate' hchanged
    rw [hasNamespaceStateChanged, List.any_cons, isStateChange_removed_empty hid hvalue] at hnoticed
    cases hnoticed
  · intro hempty events s' state' hleads hbare' hstate' hchanged
    by_contra hunnoticed
    exact hchanged (sameState_of_unnoticed hbare hbare' hdescribes (getAssignmentState_describes hstate').1 hempty
      hleads (Bool.not_eq_true _ ▸ hunnoticed))

theorem bounded_tag {zone key : String} {kv : KeyValue (Value ExactFloat)}
    (h : (Map.ofList [(buildMetadataKey "/shards" "orders" "a" "zone",
      (⟨.text zone, 1⟩ : KeyValue (Value ExactFloat)))]).lookup key = some kv) :
    0 < kv.modRevision ∧ kv.modRevision ≤ 1 := by
  obtain ⟨-, rfl⟩ := Prod.mk.inj (List.mem_singleton.mp (Map.mem_of_lookup_ofList h))
  exact ⟨Int.one_pos, Int.le_refl 1⟩

/-- Executor a with its zone as the only key. -/
def tagged (zone : String) : Store (Value ExactFloat) where
  kvs := Map.ofList [(buildMetadataKey "/shards" "orders" "a" "zone", ⟨.text zone, 1⟩)]
  revision := 1
  revision_pos := Int.one_pos
  bounded := bounded_tag

theorem get_tagged {zone key : String} {kv : KeyValue (Value ExactFloat)} (h : (tagged zone).get key = some kv) :
    key = buildMetadataKey "/shards" "orders" "a" "zone" ∧ kv = ⟨.text zone, 1⟩ :=
  Prod.mk.inj (List.mem_singleton.mp (Map.mem_of_lookup_ofList h))

theorem noBareKeys_tagged (zone : String) : NoBareKeys "/shards" "orders" (tagged zone) := by
  intro executorID hid
  refine Option.eq_none_iff_forall_ne_some.mpr fun kv h => ?_
  exact buildExecutorKey_ne_buildMetadataKey hid ExecutorKeyType.known_metadata "a" "zone" (get_tagged h).1

theorem taggedZone_complete : ∃ state, getAssignmentState "/shards" "orders" (tagged "z") = .ok state ∧
    ∀ (events : List (Event (Value ExactFloat))) (s' : Store (Value ExactFloat)) (state' : AssignmentState),
      Leads (tagged "z").kvs events s'.kvs → NoBareKeys "/shards" "orders" s' →
      getAssignmentState "/shards" "orders" s' = .ok state' → ¬SameState state state' →
      hasNamespaceStateChanged "/shards" "orders" events = true := by
  obtain ⟨state, hstate⟩ := exists_ok_of_isOk
    (by decide +kernel : (getAssignmentState "/shards" "orders" (tagged "z")).isOk = true)
  refine ⟨state, hstate, (hasNamespaceStateChanged_complete_iff "/shards" "orders" (tagged "z")
    (noBareKeys_tagged "z") state hstate).mpr ?_⟩
  rintro executorID name ⟨-, kv, hget, hvalue⟩
  obtain ⟨-, rfl⟩ := get_tagged hget
  exact absurd hvalue (by decide)

/-- The removal of an empty zone is not noticed. -/
theorem removedBlankZone_unnoticed : ∃ state state', getAssignmentState "/shards" "orders" (tagged "") = .ok state ∧
    getAssignmentState "/shards" "orders" (withoutKey (tagged "") (buildMetadataKey "/shards" "orders" "a" "zone")) =
      .ok state' ∧
    Leads (tagged "").kvs [⟨buildMetadataKey "/shards" "orders" "a" "zone", none, some ⟨.text "", 1⟩⟩]
      (withoutKey (tagged "") (buildMetadataKey "/shards" "orders" "a" "zone")).kvs ∧
    (metadataOf state.executorMetadata "a").lookup "zone" = some "" ∧
    (metadataOf state'.executorMetadata "a").lookup "zone" = none ∧
    hasNamespaceStateChanged (F := ExactFloat) "/shards" "orders"
      [⟨buildMetadataKey "/shards" "orders" "a" "zone", none, some ⟨.text "", 1⟩⟩] = false := by
  obtain ⟨state, hstate⟩ := exists_ok_of_isOk
    (by decide +kernel : (getAssignmentState "/shards" "orders" (tagged "")).isOk = true)
  obtain ⟨state', hstate'⟩ := getAssignmentState_isOk_withoutKey hstate (buildMetadataKey "/shards" "orders" "a" "zone")
  have hget : (tagged "").get (buildMetadataKey "/shards" "orders" "a" "zone") = some ⟨.text "", 1⟩ := by decide +kernel
  refine ⟨state, state', hstate, hstate', leads_withoutKey hget, ?_, ?_, ?_⟩
  · exact ((getAssignmentState_describes hstate).1.metadata (noBareKeys_tagged "") "a" "zone" "").mpr
      ⟨by decide, _, hget, rfl⟩
  · exact lookup_metadata_withoutKey (getAssignmentState_describes hstate').1 (noBareKeys_tagged "")
  · decide +kernel

end States

end executorstore
