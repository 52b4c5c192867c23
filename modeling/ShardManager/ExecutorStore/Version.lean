import ShardManager.ExecutorStore.Writers

open golang etcd etcdkeys store transition common

namespace executorstore

open etcdtypes (Value Encoding)

variable {F : Type} {pre ns : String} {s s' : Store (Value F)}

section Keys

/-- The keys that spectators read. -/
inductive Shown (pre ns : String) : String → Prop where
  | record {executorID : String} (hid : SlashFree executorID) : Shown pre ns (assignedStateKey pre ns executorID)
  | metadata {executorID : String} (hid : SlashFree executorID) (name : String) :
      Shown pre ns (buildMetadataKey pre ns executorID name)
  | drainedShard (shardID : String) : Shown pre ns (buildDrainedShardKey pre ns shardID)
  | version : Shown pre ns (buildAssignmentVersionKey pre ns)

theorem buildMetadataKey_dir (executorID name : String) :
    hasPrefix (buildMetadataKey pre ns executorID name) (buildNamespacePrefix pre ns ++ "executors/") = true := by
  rw [hasPrefix_iff, toList_buildMetadataKey]
  exact List.prefix_append _ _

/-- Keys in different directories of a namespace are different. -/
theorem ne_of_dirs {dir dir' key key' : String} (h : ¬dir.toList <+: dir'.toList) (h' : ¬dir'.toList <+: dir.toList)
    (hkey : hasPrefix key (buildNamespacePrefix pre ns ++ dir) = true)
    (hkey' : hasPrefix key' (buildNamespacePrefix pre ns ++ dir') = true) : key ≠ key' := by
  rintro rfl
  rw [not_hasPrefix_of_dir h h' hkey] at hkey'
  cases hkey'

theorem Shown.ne_buildExecutorKey {key executorID : String} {kt : ExecutorKeyType} (h : Shown pre ns key)
    (hid : SlashFree executorID) (hkt : kt.Known) (hassigned : kt ≠ .assignedState) :
    key ≠ buildExecutorKey pre ns executorID kt := by
  cases h with
  | record hid' =>
    intro heq
    exact hassigned (buildExecutorKey_inj ExecutorKeyType.known_assignedState hkt heq).2.symm
  | metadata hid' name => exact (buildExecutorKey_ne_buildMetadataKey hid hkt _ _).symm
  | drainedShard shardID =>
    exact ne_of_dirs (by decide) (by decide) (hasPrefix_append _ _) (hasPrefix_executorsPrefix_key executorID kt)
  | version => exact (executorKey_ne_version executorID kt).symm

theorem Shown.ne_buildDrainedHostKey {key : String} (h : Shown pre ns key) (hostname : String) :
    key ≠ buildDrainedHostKey pre ns hostname := by
  have hdir : hasPrefix (buildDrainedHostKey pre ns hostname) (buildNamespacePrefix pre ns ++ "drained_hosts/") =
      true := hasPrefix_append _ _
  cases h with
  | record hid => exact ne_of_dirs (by decide) (by decide) (hasPrefix_executorsPrefix_key _ _) hdir
  | metadata hid name => exact ne_of_dirs (by decide) (by decide) (buildMetadataKey_dir _ _) hdir
  | drainedShard shardID => exact ne_of_dirs (by decide) (by decide) (hasPrefix_append _ _) hdir
  | version => exact (assignmentVersionKey_ne_of_dir "drained_hosts/" (by decide) hdir).symm

/-- Hidden operations stay away from what spectators read. -/
theorem Hidden.not_put {key : String} {value : Value F} (h : Hidden pre ns (.put key value)) : ¬Shown pre ns key := by
  intro hshown
  cases h with
  | executor hid hkt hassigned hmetadata => exact hshown.ne_buildExecutorKey hid hkt hassigned rfl
  | drainedHost hostname host => exact hshown.ne_buildDrainedHostKey hostname rfl

theorem Hidden.not_deleted {range : Range} (h : Hidden (F := F) pre ns (.delete range)) {key : String}
    (hshown : Shown pre ns key) : range.contains key = false := by
  cases h with
  | statistics hid =>
    exact decide_eq_false (hshown.ne_buildExecutorKey hid (by decide) (by decide))
  | undrainedHost hostname => exact decide_eq_false (hshown.ne_buildDrainedHostKey hostname)

theorem Hidden.ne_bare {key : String} {value : Value F} (h : Hidden pre ns (.put key value)) {executorID : String} :
    key ≠ buildExecutorKey pre ns executorID .metadata := by
  cases h with
  | executor hid hkt hassigned hmetadata =>
    exact fun heq => hmetadata (buildExecutorKey_inj hkt ExecutorKeyType.known_metadata heq).2
  | drainedHost hostname host =>
    exact ne_of_dirs (by decide) (by decide) (hasPrefix_append _ _) (hasPrefix_executorsPrefix_key _ _)

theorem Visible.shown {key : String} {value : Value F} (h : Visible pre ns (.put key value)) : Shown pre ns key := by
  cases h with
  | record hid => exact .record hid
  | metadata hid name => exact .metadata hid name
  | drainedShard hvalid => exact .drainedShard _

end Keys

/-- What spectators see is the same in two stores: the records with their
revisions, the metadata values and which shards are drained. -/
structure SameAssignments (pre ns : String) (s s' : Store (Value F)) : Prop where
  record : ∀ executorID, SlashFree executorID →
    s'.get (assignedStateKey pre ns executorID) = s.get (assignedStateKey pre ns executorID)
  metadata : ∀ executorID name, SlashFree executorID →
    (s'.get (buildMetadataKey pre ns executorID name)).map KeyValue.value =
      (s.get (buildMetadataKey pre ns executorID name)).map KeyValue.value
  drained : ∀ shardID, s'.get (buildDrainedShardKey pre ns shardID) = s.get (buildDrainedShardKey pre ns shardID)

theorem SameAssignments.refl (s : Store (Value F)) : SameAssignments pre ns s s :=
  ⟨fun _ _ => rfl, fun _ _ _ => rfl, fun _ => rfl⟩

theorem SameAssignments.trans {a b c : Store (Value F)} (hab : SameAssignments pre ns a b)
    (hbc : SameAssignments pre ns b c) : SameAssignments pre ns a c where
  record e he := (hbc.record e he).trans (hab.record e he)
  metadata e name he := (hbc.metadata e name he).trans (hab.metadata e name he)
  drained shardID := (hbc.drained shardID).trans (hab.drained shardID)

section Quiet

variable [DecidableEq F] {ops : List (Op (Value F))}

omit [DecidableEq F] in
/-- A quiet transaction touches nothing that spectators read but metadata, and
that only to write it as it was. -/
theorem not_touches_of_quiet (hquiet : ∀ op ∈ ops, Quiet pre ns s op) {key : String} (hshown : Shown pre ns key)
    (hmetadata : ∀ executorID name, SlashFree executorID → key ≠ buildMetadataKey pre ns executorID name) :
    ¬Touches ops key := by
  rintro (hput | ⟨range, hrange, hcontains⟩)
  · obtain ⟨value, hput⟩ := mem_putKeys.mp hput
    rcases hquiet _ hput with hhidden | ⟨executorID, name, text, kv, hid, heq, -⟩
    · exact hhidden.not_put hshown
    · cases heq
      exact hmetadata executorID name hid rfl
  · rcases hquiet _ (mem_deleteRanges.mp hrange) with hhidden | ⟨_, _, _, _, -, heq, -⟩
    · rw [hhidden.not_deleted hshown] at hcontains
      cases hcontains
    · cases heq

theorem metadata_of_quiet (hquiet : ∀ op ∈ ops, Quiet pre ns s op) (happlied : Applied ops s s')
    {executorID name : String} (hid : SlashFree executorID) :
    (s'.get (buildMetadataKey pre ns executorID name)).map KeyValue.value =
      (s.get (buildMetadataKey pre ns executorID name)).map KeyValue.value := by
  by_cases htouch : Touches ops (buildMetadataKey pre ns executorID name)
  · rcases htouch with hput | ⟨range, hrange, hcontains⟩
    · obtain ⟨value, hput⟩ := mem_putKeys.mp hput
      rw [happlied.get_of_put hput]
      rcases hquiet _ hput with hhidden | ⟨executorID', name', text, kv, hid', heq, hget, hvalue⟩
      · exact absurd (.metadata hid name) hhidden.not_put
      · obtain ⟨hkey, rfl⟩ := Op.put.inj heq
        rw [hkey, hget, Option.map_some, Option.map_some, hvalue]
    · rcases hquiet _ (mem_deleteRanges.mp hrange) with hhidden | ⟨_, _, _, _, -, heq, -⟩
      · rw [hhidden.not_deleted (.metadata hid name)] at hcontains
        cases hcontains
      · cases heq
  · rw [happlied.get_of_not_touches htouch]

/-- A quiet transaction changes nothing spectators see, nor the version. -/
theorem sameAssignments_of_quiet (hquiet : ∀ op ∈ ops, Quiet pre ns s op) (happlied : Applied ops s s') :
    SameAssignments pre ns s s' ∧
      s'.get (buildAssignmentVersionKey pre ns) = s.get (buildAssignmentVersionKey pre ns) := by
  refine ⟨⟨?_, ?_, ?_⟩, ?_⟩
  · intro executorID hid
    refine happlied.get_of_not_touches (not_touches_of_quiet hquiet (.record hid) ?_)
    exact fun e name _ => buildExecutorKey_ne_buildMetadataKey hid ExecutorKeyType.known_assignedState e name
  · exact fun executorID name hid => metadata_of_quiet hquiet happlied hid
  · intro shardID
    refine happlied.get_of_not_touches (not_touches_of_quiet hquiet (.drainedShard shardID) ?_)
    exact fun e name _ => ne_of_dirs (by decide) (by decide) (hasPrefix_append _ _) (buildMetadataKey_dir e name)
  · refine happlied.get_of_not_touches (not_touches_of_quiet hquiet .version ?_)
    exact fun e name _ => (assignmentVersionKey_ne_of_dir "executors/" (by decide) (buildMetadataKey_dir e name)).symm

/-- Every transaction of the namespace moves the version or changes nothing
spectators see. -/
theorem version_of_written (h : Written pre ns s s') :
    s.modRevision (buildAssignmentVersionKey pre ns) < s'.modRevision (buildAssignmentVersionKey pre ns) ∨
      s.modRevision (buildAssignmentVersionKey pre ns) = s'.modRevision (buildAssignmentVersionKey pre ns) ∧
        SameAssignments pre ns s s' := by
  rcases h with rfl | ⟨ops, hwrites, happlied⟩
  · exact .inr ⟨rfl, .refl _⟩
  · rcases hwrites.touched with htouch | hquiet
    · left
      rw [Store.modRevision_of_get (happlied.get_of_put htouch)]
      exact Int.lt_add_one_of_le (s.modRevision_le _)
    · right
      obtain ⟨hsame, hversion⟩ := sameAssignments_of_quiet hquiet happlied
      exact ⟨by rw [Store.modRevision, Store.modRevision, hversion], hsame⟩

/-- No transaction writes at the directory name of an executor's metadata. -/
theorem noBareKeys_of_written (h : Written pre ns s s') (hbare : NoBareKeys pre ns s) : NoBareKeys pre ns s' := by
  rcases h with rfl | ⟨ops, hwrites, happlied⟩
  · exact hbare
  · intro executorID hid
    rcases happlied.get_cases (buildExecutorKey pre ns executorID .metadata) with ⟨value, hput, -⟩ | hnone | hsame
    · exfalso
      rcases hwrites.kinds _ hput with hhidden | hvisible | htouch
      · exact hhidden.ne_bare rfl
      · exact hvisible.shown.ne_buildExecutorKey hid ExecutorKeyType.known_metadata (by decide) rfl
      · have hshown : Shown pre ns (buildExecutorKey pre ns executorID .metadata) := by
          rw [(Op.put.inj htouch).1]
          exact .version
        exact hshown.ne_buildExecutorKey hid ExecutorKeyType.known_metadata (by decide) rfl
    · exact hnone
    · rw [hsame]
      exact hbare executorID hid

end Quiet

section Reads

variable [Encoding F]

/-- Reads of stores that spectators cannot tell apart say the same. -/
theorem SameAssignments.reads {state state' : AssignmentState} (hsame : SameAssignments pre ns s s')
    (hbare : NoBareKeys pre ns s) (hbare' : NoBareKeys pre ns s') (h : Describes pre ns s state)
    (h' : Describes pre ns s' state') :
    (∀ executorID, state'.shardAssignments.lookup executorID = state.shardAssignments.lookup executorID) ∧
    (∀ shardID, shardID ∈ state'.drainedShards ↔ shardID ∈ state.drainedShards) ∧
    ∀ executorID name, (metadataOf state'.executorMetadata executorID).lookup name =
      (metadataOf state.executorMetadata executorID).lookup name := by
  refine ⟨?_, ?_, ?_⟩
  · intro executorID
    refine Option.ext fun assigned => ?_
    rw [h'.assignments, h.assignments]
    refine and_congr_right fun hid => ?_
    rw [hsame.record executorID hid]
  · intro shardID
    rw [h'.drained, h.drained, DrainedAt, DrainedAt, hsame.drained]
  · intro executorID name
    refine Option.ext fun value => ?_
    rw [h'.metadata hbare', h.metadata hbare, metadataAt_iff, metadataAt_iff]
    refine and_congr_right fun hid => ?_
    rw [hsame.metadata executorID name hid]

end Reads

section Runs

variable [Float64 F] [DecidableEq F] [Encoding F]

/-- The runs of the writing operations, called with proper executor IDs. -/
abbrev WriteRun (pre ns : String) : Writers F → Writers F → Prop :=
  Run (write pre ns) fun _ label => label.SlashFreeIDs

theorem versioned_of_run {w w' : Writers F} (hrun : WriteRun pre ns w w') (hsound : w.Sound pre ns)
    (hbare : NoBareKeys pre ns w.store) :
    (w'.Sound pre ns ∧ NoBareKeys pre ns w'.store) ∧
      w.store.modRevision (buildAssignmentVersionKey pre ns) ≤
        w'.store.modRevision (buildAssignmentVersionKey pre ns) ∧
      (w.store.modRevision (buildAssignmentVersionKey pre ns) =
        w'.store.modRevision (buildAssignmentVersionKey pre ns) → SameAssignments pre ns w.store w'.store) := by
  refine hrun.versioned (fun w => w.store.modRevision (buildAssignmentVersionKey pre ns))
    (fun w w' => SameAssignments pre ns w.store w'.store) (fun w => .refl w.store) .trans
    (fun w => w.Sound pre ns ∧ NoBareKeys pre ns w.store) ?_ ⟨hsound, hbare⟩
  rintro w label w' ⟨hsound, hbare⟩ hids hwrite
  obtain ⟨hwritten, hsound'⟩ := write_written hsound hids hwrite
  exact ⟨⟨hsound', noBareKeys_of_written hwritten hbare⟩, version_of_written hwritten⟩

/-- Whatever the writers of a namespace do and wherever batched operations
stop, the assignment revision that reads return never decreases, and two reads
with the same assignment revision return the same assignments, drained shards
and metadata. Nothing is assumed about the name of the namespace. -/
theorem reads_versioned (pre ns : String) (s₀ : Store (Value F)) (w w' : Writers F) (state state' : AssignmentState)
    (hbare : NoBareKeys pre ns s₀) (hrun : WriteRun pre ns ⟨s₀, []⟩ w) (hrun' : WriteRun pre ns w w')
    (hread : getAssignmentState pre ns w.store = .ok state)
    (hread' : getAssignmentState pre ns w'.store = .ok state') :
    state.assignmentRevision ≤ state'.assignmentRevision ∧
    (state.assignmentRevision = state'.assignmentRevision →
      (∀ executorID, state'.shardAssignments.lookup executorID = state.shardAssignments.lookup executorID) ∧
      (∀ shardID, shardID ∈ state'.drainedShards ↔ shardID ∈ state.drainedShards) ∧
      ∀ executorID name, (metadataOf state'.executorMetadata executorID).lookup name =
        (metadataOf state.executorMetadata executorID).lookup name) := by
  have hsound₀ : (⟨s₀, []⟩ : Writers F).Sound pre ns := fun call hcall => absurd hcall List.not_mem_nil
  obtain ⟨⟨hsound, hbare⟩, -⟩ := versioned_of_run hrun hsound₀ hbare
  obtain ⟨⟨-, hbare'⟩, hle, hsame⟩ := versioned_of_run hrun' hsound hbare
  obtain ⟨hdescribes, hrevision⟩ := getAssignmentState_describes hread
  obtain ⟨hdescribes', hrevision'⟩ := getAssignmentState_describes hread'
  rw [hrevision, hrevision']
  exact ⟨hle, fun heq => (hsame heq).reads hbare hbare' hdescribes hdescribes'⟩

end Runs

section Examples

/-- A heartbeat with one metadata value. -/
def heartbeatAt (time : Time) : HeartbeatState ExactFloat where
  lastHeartbeat := time
  status := .active
  reportedShards := ∅
  metadata := Map.ofList [("zone", "east")]
  hostMetadata := none

def afterHeartbeat (time : Time) (s : Store (Value ExactFloat)) : Store (Value ExactFloat) :=
  (recordHeartbeat "/shards" "orders" .stored "a" (heartbeatAt time) .delivered s).2

/-- A second heartbeat with the same metadata is stored without moving the
assignment version. -/
theorem repeatedHeartbeat_versioned : ∃ state state',
    getAssignmentState "/shards" "orders" (afterHeartbeat 1 .empty) = .ok state ∧
    getAssignmentState "/shards" "orders" (afterHeartbeat 2 (afterHeartbeat 1 .empty)) = .ok state' ∧
    state.revision < state'.revision ∧ state.assignmentRevision = state'.assignmentRevision ∧
    (metadataOf state.executorMetadata "a").lookup "zone" = some "east" ∧
    (metadataOf state'.executorMetadata "a").lookup "zone" = some "east" := by
  have heval : ((getAssignmentState "/shards" "orders" (afterHeartbeat 1 .empty)).toOption.bind fun state =>
      (getAssignmentState "/shards" "orders" (afterHeartbeat 2 (afterHeartbeat 1 .empty))).toOption.map fun state' =>
        decide (state.revision < state'.revision ∧ state.assignmentRevision = state'.assignmentRevision ∧
          (metadataOf state.executorMetadata "a").lookup "zone" = some "east")) = some true := by
    decide +kernel
  obtain ⟨state, hread, heval⟩ := Option.bind_eq_some_iff.mp heval
  obtain ⟨state', hread', heval⟩ := Option.map_eq_some_iff.mp heval
  obtain ⟨hlt, heq, hzone⟩ := of_decide_eq_true heval
  have hread := toOption_eq_some_iff.mp hread
  have hread' := toOption_eq_some_iff.mp hread'
  have hid : SlashFree "a" := by decide
  have hbare : NoBareKeys "/shards" "orders" (.empty : Store (Value ExactFloat)) := fun _ _ => Store.get_empty _
  have hrun : WriteRun "/shards" "orders" ⟨.empty, []⟩ ⟨afterHeartbeat 1 .empty, []⟩ :=
    .single ⟨.recordHeartbeat .stored "a" (heartbeatAt 1) .delivered, hid, rfl⟩
  have hrun' : WriteRun "/shards" "orders" ⟨afterHeartbeat 1 .empty, []⟩
      ⟨afterHeartbeat 2 (afterHeartbeat 1 .empty), []⟩ :=
    .single ⟨.recordHeartbeat .stored "a" (heartbeatAt 2) .delivered, hid, rfl⟩
  obtain ⟨-, hsame⟩ := reads_versioned _ _ .empty _ _ state state' hbare hrun hrun' hread hread'
  refine ⟨state, state', hread, hread', hlt, heq, hzone, ?_⟩
  rw [(hsame heq).2.2, hzone]

end Examples

end executorstore
