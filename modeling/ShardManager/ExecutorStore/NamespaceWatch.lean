import ShardManager.Etcd.Changes
import ShardManager.ExecutorStore.Version

open golang etcd etcdkeys store

namespace executorstore

open etcdtypes (Value Encoding)

variable {F : Type}

section Model

variable [Encoding F] (pre ns : String)

/-- The value of an event as a string. A delete carries none. -/
def eventValue : Option (KeyValue (Value F)) → String
  | some kv => Encoding.bytes kv.value
  | none => ""

/-- Spectators have to know of the event. A key of the namespace that is
neither of an executor nor of a drained shard is none of their business. -/
def isStateChange (event : Event (Value F)) : Bool :=
  if hasPrefix event.key (buildExecutorsPrefix pre ns) then
    match parseExecutorKey pre ns event.key with
    | .error _ => false
    | .ok (_, keyType) =>
      if keyType ≠ .assignedState ∧ keyType ≠ .metadata then false
      -- Skip a rewrite of the same value.
      else if event.prevKv.isSome ∧ eventValue event.kv = eventValue event.prevKv then false
      else true
  else if hasPrefix event.key (buildDrainedShardsPrefix pre ns) then
    match parseDrainedShardKey pre ns event.key with
    | .error _ => false
    | .ok _ => true
  else false

def hasNamespaceStateChanged (events : List (Event (Value F))) : Bool :=
  events.any (isStateChange pre ns)

end Model

section Spec

variable {pre ns : String} {s s' : Store (Value F)}

/-- Records and metadata are stored as what they are. -/
structure WellTyped (pre ns : String) (s : Store (Value F)) : Prop where
  record : ∀ executorID kv, SlashFree executorID → s.get (assignedStateKey pre ns executorID) = some kv →
    ∃ record, kv.value = .assignedState record
  metadata : ∀ executorID name kv, SlashFree executorID →
    s.get (buildMetadataKey pre ns executorID name) = some kv → ∃ text, kv.value = .text text

theorem wellTyped_empty : WellTyped pre ns (.empty : Store (Value F)) := by
  constructor <;> simp

theorem Writes.put_record {ops : List (Op (Value F))} (h : Writes pre ns s ops) {executorID : String}
    {value : Value F} (hid : SlashFree executorID)
    (hput : Op.put (assignedStateKey pre ns executorID) value ∈ ops) : ∃ record, value = .assignedState record := by
  rcases h.kinds _ hput with hhidden | hvisible | htouch
  · exact absurd (.record hid) hhidden.not_put
  · generalize hkey : assignedStateKey pre ns executorID = key at hvisible
    cases hvisible with
    | record hid' record => exact ⟨record, rfl⟩
    | metadata hid' name text =>
      exact absurd hkey (buildExecutorKey_ne_buildMetadataKey hid ExecutorKeyType.known_assignedState _ _)
    | drainedShard hvalid =>
      exact absurd hkey (ne_of_dirs (by decide) (by decide) (hasPrefix_executorsPrefix_key _ _) (hasPrefix_append _ _))
  · exact absurd (Op.put.inj htouch).1
      (executorKey_ne_version _ _)

theorem Writes.put_metadata {ops : List (Op (Value F))} (h : Writes pre ns s ops) {executorID name : String}
    {value : Value F} (hid : SlashFree executorID)
    (hput : Op.put (buildMetadataKey pre ns executorID name) value ∈ ops) : ∃ text, value = .text text := by
  rcases h.kinds _ hput with hhidden | hvisible | htouch
  · exact absurd (.metadata hid name) hhidden.not_put
  · generalize hkey : buildMetadataKey pre ns executorID name = key at hvisible
    cases hvisible with
    | record hid' record =>
      exact absurd hkey.symm (buildExecutorKey_ne_buildMetadataKey hid' ExecutorKeyType.known_assignedState _ _)
    | metadata hid' name' text => exact ⟨text, rfl⟩
    | drainedShard hvalid => exact ⟨"", rfl⟩
  · exact ⟨_, (Op.put.inj htouch).2⟩

/-- Metadata goes only together with the record of its executor. -/
theorem Writes.deleted_metadata {ops : List (Op (Value F))} (h : Writes pre ns s ops) {executorID name : String}
    (hid : SlashFree executorID) {range : Range} (hdelete : Op.delete range ∈ ops)
    (hcontains : range.contains (buildMetadataKey pre ns executorID name) = true) :
    range.contains (assignedStateKey pre ns executorID) = true := by
  rcases h.kinds _ hdelete with hhidden | hvisible | htouch
  · rw [hhidden.not_deleted (.metadata hid name)] at hcontains
    cases hcontains
  · cases hvisible with
    | undrainedShard hvalid =>
      exact absurd (of_decide_eq_true hcontains)
        (ne_of_dirs (by decide) (by decide) (buildMetadataKey_dir _ _) (hasPrefix_append _ _))
    | executor hid' =>
      obtain rfl := (hasPrefix_buildMetadataKey_iff hid hid').mp hcontains
      exact (hasPrefix_buildExecutorKey_iff hid hid).mpr rfl
    | reset =>
      have hdir : hasPrefix (assignedStateKey pre ns executorID) (buildNamespacePrefix pre ns ++ "executors/") = true :=
        hasPrefix_executorsPrefix_key _ _
      obtain ⟨rest, hrest⟩ := hasPrefix_iff.mp hdir
      rw [Range.contains, hasPrefix_iff, ← hrest, String.toList_append, List.append_assoc]
      exact List.prefix_append _ _
  · cases htouch

/-- What a stream shows of two stores is the same: which executors have which
shards, their metadata, and the drained shards. -/
structure SameView (pre ns : String) (s s' : Store (Value F)) : Prop where
  record : ∀ executorID, SlashFree executorID →
    (s'.get (assignedStateKey pre ns executorID)).map KeyValue.value =
      (s.get (assignedStateKey pre ns executorID)).map KeyValue.value
  metadata : ∀ executorID name, SlashFree executorID → (s'.get (assignedStateKey pre ns executorID)).isSome →
    (s'.get (buildMetadataKey pre ns executorID name)).map KeyValue.value =
      (s.get (buildMetadataKey pre ns executorID name)).map KeyValue.value
  drained : ∀ shardID, validateShardID shardID = .ok () →
    (s'.get (buildDrainedShardKey pre ns shardID)).isSome = (s.get (buildDrainedShardKey pre ns shardID)).isSome

theorem SameView.refl (s : Store (Value F)) : SameView pre ns s s :=
  ⟨fun _ _ => rfl, fun _ _ _ _ => rfl, fun _ _ => rfl⟩

theorem SameView.isSome_record (h : SameView pre ns s s') {executorID : String} (hid : SlashFree executorID) :
    (s'.get (assignedStateKey pre ns executorID)).isSome = (s.get (assignedStateKey pre ns executorID)).isSome := by
  simpa using congrArg Option.isSome (h.record executorID hid)

theorem SameView.symm (h : SameView pre ns s s') : SameView pre ns s' s where
  record e he := (h.record e he).symm
  metadata e name he hsome := (h.metadata e name he (h.isSome_record he ▸ hsome)).symm
  drained shardID hvalid := (h.drained shardID hvalid).symm

theorem SameView.trans {a b c : Store (Value F)} (hab : SameView pre ns a b) (hbc : SameView pre ns b c) :
    SameView pre ns a c where
  record e he := (hbc.record e he).trans (hab.record e he)
  metadata e name he hsome := (hbc.metadata e name he hsome).trans
    (hab.metadata e name he (hbc.isSome_record he ▸ hsome))
  drained shardID hvalid := (hbc.drained shardID hvalid).trans (hab.drained shardID hvalid)

theorem SameView.recordAt (h : SameView pre ns s s') {executorID : String} {state : AssignedState}
    (hrecord : RecordAt pre ns s executorID state) :
    ∃ state', RecordAt pre ns s' executorID state' ∧ state'.assignedShards = state.assignedShards := by
  obtain ⟨hid, kv, record, hget, hvalue, rfl⟩ := hrecord
  have hsame := h.record executorID hid
  rw [hget, Option.map_some] at hsame
  obtain ⟨kv', hget', hvalue'⟩ := Option.map_eq_some_iff.mp hsame
  exact ⟨_, ⟨hid, kv', record, hget', hvalue'.trans hvalue, rfl⟩, rfl⟩

theorem SameView.metadataAt [Encoding F] (h : SameView pre ns s s') {executorID name value : String}
    {state : AssignedState} (hrecord : RecordAt pre ns s executorID state) :
    MetadataAt pre ns s executorID name value ↔ MetadataAt pre ns s' executorID name value := by
  obtain ⟨hid, kv, record, hget, -⟩ := hrecord
  have hsome : (s'.get (assignedStateKey pre ns executorID)).isSome := by
    rw [h.isSome_record hid, hget]
    rfl
  rw [metadataAt_iff, metadataAt_iff, h.metadata executorID name hid hsome]

theorem SameView.drainedAt (h : SameView pre ns s s') {shardID : String} :
    DrainedAt pre ns s shardID ↔ DrainedAt pre ns s' shardID := by
  refine and_congr_right fun hvalid => ?_
  rw [← Option.isSome_iff_exists, ← Option.isSome_iff_exists, h.drained shardID hvalid]

variable [DecidableEq F]

theorem wellTyped_of_written (h : Written pre ns s s') (hs : WellTyped pre ns s) : WellTyped pre ns s' := by
  rcases h with rfl | ⟨ops, hwrites, happlied⟩
  · exact hs
  · refine ⟨fun executorID kv hid hget => ?_, fun executorID name kv hid hget => ?_⟩
    · rcases happlied.get_cases (assignedStateKey pre ns executorID) with ⟨value, hput, hget'⟩ | hnone | hsame
      · obtain ⟨record, rfl⟩ := hwrites.put_record hid hput
        cases hget.symm.trans hget'
        exact ⟨record, rfl⟩
      · cases hget.symm.trans hnone
      · exact hs.record executorID kv hid (hsame ▸ hget)
    · rcases happlied.get_cases (buildMetadataKey pre ns executorID name) with ⟨value, hput, hget'⟩ | hnone | hsame
      · obtain ⟨text, rfl⟩ := hwrites.put_metadata hid hput
        cases hget.symm.trans hget'
        exact ⟨text, rfl⟩
      · cases hget.symm.trans hnone
      · exact hs.metadata executorID name kv hid (hsame ▸ hget)

/-- A transaction that removes metadata removes the record, too. -/
theorem record_gone_of_metadata_gone (h : Written pre ns s s') {executorID name : String}
    (hid : SlashFree executorID) {kv : KeyValue (Value F)}
    (hget : s.get (buildMetadataKey pre ns executorID name) = some kv)
    (hgone : s'.get (buildMetadataKey pre ns executorID name) = none) :
    s'.get (assignedStateKey pre ns executorID) = none := by
  rcases h with rfl | ⟨ops, hwrites, happlied⟩
  · cases hget.symm.trans hgone
  · by_cases htouch : Touches ops (buildMetadataKey pre ns executorID name)
    · rcases htouch with hput | ⟨range, hrange, hcontains⟩
      · obtain ⟨value, hput⟩ := mem_putKeys.mp hput
        cases (happlied.get_of_put hput).symm.trans hgone
      · have hdelete := mem_deleteRanges.mp hrange
        exact happlied.get_of_deleted hdelete (hwrites.deleted_metadata hid hdelete hcontains)
    · rw [happlied.get_of_not_touches htouch, hget] at hgone
      cases hgone

theorem follows_of_written (h : Written pre ns s s') : s.Follows s' := by
  rcases h with rfl | ⟨ops, -, happlied⟩
  · exact .refl _
  · exact happlied.follows

variable [Encoding F]

omit [DecidableEq F] in
/-- The event of a record that changed its value is noticed. -/
theorem isStateChange_record (hs : WellTyped pre ns s) (hs' : WellTyped pre ns s') {executorID : String}
    (hid : SlashFree executorID)
    (hne : (s'.get (assignedStateKey pre ns executorID)).map KeyValue.value ≠
      (s.get (assignedStateKey pre ns executorID)).map KeyValue.value) :
    isStateChange pre ns ⟨assignedStateKey pre ns executorID, s'.get (assignedStateKey pre ns executorID),
      s.get (assignedStateKey pre ns executorID)⟩ = true := by
  have hparse : parseExecutorKey pre ns (assignedStateKey pre ns executorID) = .ok (executorID, .assignedState) :=
    parseExecutorKey_buildExecutorKey hid ExecutorKeyType.known_assignedState
  have hdir : hasPrefix (assignedStateKey pre ns executorID) (buildExecutorsPrefix pre ns) = true :=
    hasPrefix_executorsPrefix_key _ _
  unfold isStateChange
  rw [if_pos hdir, hparse]
  dsimp only
  rw [if_neg (by decide), if_neg]
  rintro ⟨hprev, hvalue⟩
  obtain ⟨kv, hget⟩ := Option.isSome_iff_exists.mp hprev
  obtain ⟨record, hrecord⟩ := hs.record executorID kv hid hget
  rw [hget] at hvalue hne
  cases hget' : s'.get (assignedStateKey pre ns executorID) with
  | none =>
    rw [hget'] at hvalue
    rw [eventValue, eventValue, hrecord] at hvalue
    exact Encoding.bytes_assignedState_ne record hvalue.symm
  | some kv' =>
    obtain ⟨record', hrecord'⟩ := hs'.record executorID kv' hid hget'
    rw [hget'] at hvalue hne
    rw [eventValue, eventValue, hrecord, hrecord'] at hvalue
    apply hne
    rw [Option.map_some, Option.map_some, hrecord, hrecord', Encoding.bytes_assignedState_inj hvalue]

omit [DecidableEq F] in
/-- So is the event of metadata, unless it is the removal of an empty value. -/
theorem isStateChange_metadata (hs : WellTyped pre ns s) (hs' : WellTyped pre ns s') {executorID name : String}
    (hid : SlashFree executorID)
    (hthere : ∀ kv, s.get (buildMetadataKey pre ns executorID name) = some kv →
      s'.get (buildMetadataKey pre ns executorID name) ≠ none)
    (hne : (s'.get (buildMetadataKey pre ns executorID name)).map KeyValue.value ≠
      (s.get (buildMetadataKey pre ns executorID name)).map KeyValue.value) :
    isStateChange pre ns ⟨buildMetadataKey pre ns executorID name,
      s'.get (buildMetadataKey pre ns executorID name), s.get (buildMetadataKey pre ns executorID name)⟩ = true := by
  have hdir : hasPrefix (buildMetadataKey pre ns executorID name) (buildExecutorsPrefix pre ns) = true :=
    buildMetadataKey_dir _ _
  unfold isStateChange
  rw [if_pos hdir, parseExecutorKey_buildMetadataKey hid]
  dsimp only
  rw [if_neg (by decide), if_neg]
  rintro ⟨hprev, hvalue⟩
  obtain ⟨kv, hget⟩ := Option.isSome_iff_exists.mp hprev
  obtain ⟨kv', hget'⟩ := Option.ne_none_iff_exists'.mp (hthere kv hget)
  obtain ⟨text, htext⟩ := hs.metadata executorID name kv hid hget
  obtain ⟨text', htext'⟩ := hs'.metadata executorID name kv' hid hget'
  rw [hget, hget'] at hvalue hne
  rw [eventValue, eventValue, htext, htext', Encoding.bytes_text, Encoding.bytes_text] at hvalue
  apply hne
  rw [Option.map_some, Option.map_some, htext, htext', hvalue]

omit [DecidableEq F] in
theorem isStateChange_drained {shardID : String} (hvalid : validateShardID shardID = .ok ())
    (kv prevKv : Option (KeyValue (Value F))) :
    isStateChange pre ns ⟨buildDrainedShardKey pre ns shardID, kv, prevKv⟩ = true := by
  have hdir : hasPrefix (buildDrainedShardKey pre ns shardID) (buildDrainedShardsPrefix pre ns) = true :=
    hasPrefix_append _ _
  have hother : hasPrefix (buildDrainedShardKey pre ns shardID) (buildExecutorsPrefix pre ns) = false :=
    not_hasPrefix_of_dir (by decide) (by decide) hdir
  unfold isStateChange
  rw [if_neg (by rw [hother]; decide), if_pos hdir, parseDrainedShardKey_eq_ok_iff.mpr ⟨rfl, hvalid⟩]

/-- What the watcher does not report, a stream does not show. -/
theorem sameView_of_unreported (h : Written pre ns s s') (hs : WellTyped pre ns s)
    (hunreported : hasNamespaceStateChanged pre ns (changes s s') = false) : SameView pre ns s s' := by
  have hfollows := follows_of_written h
  have hs' := wellTyped_of_written h hs
  -- A key with a noticeable change has not changed.
  have hsame : ∀ key, isStateChange pre ns ⟨key, s'.get key, s.get key⟩ = true → s'.get key = s.get key := by
    intro key hchange
    by_contra hne
    have hreported := List.any_eq_true.mpr ⟨_, mem_changes_of_ne hfollows hne, hchange⟩
    rw [hasNamespaceStateChanged, hreported] at hunreported
    cases hunreported
  have hrecord : ∀ executorID, SlashFree executorID →
      (s'.get (assignedStateKey pre ns executorID)).map KeyValue.value =
        (s.get (assignedStateKey pre ns executorID)).map KeyValue.value := by
    intro executorID hid
    by_contra hne
    exact hne (congrArg _ (hsame _ (isStateChange_record hs hs' hid hne)))
  refine ⟨hrecord, ?_, ?_⟩
  · intro executorID name hid hsome
    by_contra hne
    refine hne (congrArg _ (hsame _ (isStateChange_metadata hs hs' hid ?_ hne)))
    intro kv hget hgone
    rw [record_gone_of_metadata_gone h hid hget hgone] at hsome
    cases hsome
  · intro shardID hvalid
    rw [hsame _ (isStateChange_drained hvalid _ _)]

end Spec

end executorstore
