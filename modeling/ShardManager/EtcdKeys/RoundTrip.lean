import ShardManager.LeaderStore.Election

open etcd executorstore common leaderstore

namespace etcdkeys

/-- The directories of a namespace. -/
inductive Directory where
  | executors
  | drainedShards
  | drainedHosts
  | leader
deriving DecidableEq, Repr

def Directory.name : Directory → String
  | .executors => "executors/"
  | .drainedShards => "drained_shards/"
  | .drainedHosts => "drained_hosts/"
  | .leader => "leader/"

theorem Directory.not_prefix {dir dir' : Directory} (h : dir ≠ dir') : ¬dir.name.toList <+: dir'.name.toList := by
  cases dir <;> cases dir' <;> first | exact absurd rfl h | decide

/-- What a key of one namespace stands for. -/
inductive LogicalKey where
  | executor (executorID : String) (keyType : ExecutorKeyType)
  | metadata (executorID metadataKey : String)
  | drainedShard (shardID : String)
  | drainedHost (host : String)
  | candidate (lease : String)
  | assignmentVersion
deriving DecidableEq, Repr

namespace LogicalKey

def build (pre ns : String) : LogicalKey → String
  | .executor executorID keyType => buildExecutorKey pre ns executorID keyType
  | .metadata executorID metadataKey => buildMetadataKey pre ns executorID metadataKey
  | .drainedShard shardID => buildDrainedShardKey pre ns shardID
  | .drainedHost host => buildDrainedHostKey pre ns host
  | .candidate lease => candidateKey pre ns lease
  | .assignmentVersion => buildAssignmentVersionKey pre ns

/-- The keys that are written: executor IDs are single segments, drained shards
and hosts have passed validation. Metadata keys and leases are any strings. -/
def Valid : LogicalKey → Prop
  | .executor executorID keyType => SlashFree executorID ∧ keyType.Known
  | .metadata executorID _ => SlashFree executorID
  | .drainedShard shardID => validateShardID shardID = .ok ()
  | .drainedHost host => hostname.validate host = .ok ()
  | .candidate _ => True
  | .assignmentVersion => True

def executorKey? : LogicalKey → Option (String × ExecutorKeyType)
  | .executor executorID keyType => some (executorID, keyType)
  | .metadata executorID _ => some (executorID, .metadata)
  | _ => none

def drainedShard? : LogicalKey → Option String
  | .drainedShard shardID => some shardID
  | _ => none

def drainedHost? : LogicalKey → Option String
  | .drainedHost host => some host
  | _ => none

/-- The directory of a key below its namespace. -/
def directory? : LogicalKey → Option Directory
  | .executor .. | .metadata .. => some .executors
  | .drainedShard _ => some .drainedShards
  | .drainedHost _ => some .drainedHosts
  | .candidate _ => some .leader
  | .assignmentVersion => none

variable {pre ns : String}

theorem hasPrefix_directory {k : LogicalKey} {dir : Directory} (h : k.directory? = some dir) :
    hasPrefix (k.build pre ns) (buildNamespacePrefix pre ns ++ dir.name) = true := by
  rw [hasPrefix_iff]
  cases k with
  | assignmentVersion => cases h
  | executor executorID keyType =>
    cases h
    simp [build, Directory.name, buildExecutorKey, buildExecutorIDPrefix, buildExecutorsPrefix]
  | metadata executorID metadataKey =>
    cases h
    simp [build, Directory.name, buildMetadataKey, buildExecutorKey, buildExecutorIDPrefix, buildExecutorsPrefix]
  | drainedShard shardID =>
    cases h
    simp [build, Directory.name, buildDrainedShardKey, buildDrainedShardsPrefix]
  | drainedHost host =>
    cases h
    simp [build, Directory.name, buildDrainedHostKey, buildDrainedHostsPrefix]
  | candidate lease =>
    cases h
    simp [build, Directory.name, candidateKey, electionKey, buildNamespacePrefix]

/-- Every key lies in its own directory and in no other one. -/
theorem hasPrefix_directory_iff {k : LogicalKey} {dir : Directory} :
    hasPrefix (k.build pre ns) (buildNamespacePrefix pre ns ++ dir.name) = true ↔ k.directory? = some dir := by
  refine ⟨fun hkey => ?_, hasPrefix_directory⟩
  cases hown : k.directory? with
  | none =>
    cases k <;> cases hown
    rw [build, not_hasPrefix_assignmentVersionKey dir.name (by cases dir <;> decide)] at hkey
    cases hkey
  | some own =>
    by_contra hne
    have hother : own ≠ dir := fun heq => hne (congrArg some heq)
    have hfalse : hasPrefix (k.build pre ns) (buildNamespacePrefix pre ns ++ dir.name) = false :=
      not_hasPrefix_of_dir (Directory.not_prefix hother) (Directory.not_prefix (Ne.symm hother))
        (hasPrefix_directory hown)
    rw [hkey] at hfalse
    cases hfalse

theorem parseExecutorKey_build {k : LogicalKey} (hk : k.Valid) :
    (parseExecutorKey pre ns (k.build pre ns)).toOption = k.executorKey? := by
  by_cases hdir : k.directory? = some .executors
  · cases k with
    | executor executorID keyType =>
      rw [build, parseExecutorKey_buildExecutorKey hk.1 hk.2]
      rfl
    | metadata executorID metadataKey =>
      rw [build, parseExecutorKey_buildMetadataKey hk]
      rfl
    | _ => cases hdir
  · have hpre : ¬hasPrefix (k.build pre ns) (buildExecutorsPrefix pre ns) = true :=
      fun hpre => hdir (hasPrefix_directory_iff.mp hpre)
    rw [parseExecutorKey, if_neg hpre]
    cases k <;> first | rfl | exact absurd rfl hdir

theorem parseDrainedShardKey_build {k : LogicalKey} (hk : k.Valid) :
    (parseDrainedShardKey pre ns (k.build pre ns)).toOption = k.drainedShard? := by
  by_cases hdir : k.directory? = some .drainedShards
  · cases k with
    | drainedShard shardID =>
      rw [build, parseDrainedShardKey_eq_ok_iff.mpr ⟨rfl, hk⟩]
      rfl
    | _ => cases hdir
  · have hpre : ¬hasPrefix (k.build pre ns) (buildDrainedShardsPrefix pre ns) = true :=
      fun hpre => hdir (hasPrefix_directory_iff.mp hpre)
    rw [parseDrainedShardKey, if_neg hpre]
    cases k <;> first | rfl | exact absurd rfl hdir

theorem parseDrainedHostKey_build {k : LogicalKey} (hk : k.Valid) :
    (parseDrainedHostKey pre ns (k.build pre ns)).toOption = k.drainedHost? := by
  by_cases hdir : k.directory? = some .drainedHosts
  · cases k with
    | drainedHost host =>
      rw [build, parseDrainedHostKey_eq_ok_iff.mpr ⟨rfl, hk⟩]
      rfl
    | _ => cases hdir
  · have hpre : ¬hasPrefix (k.build pre ns) (buildDrainedHostsPrefix pre ns) = true :=
      fun hpre => hdir (hasPrefix_directory_iff.mp hpre)
    rw [parseDrainedHostKey, if_neg hpre]
    cases k <;> first | rfl | exact absurd rfl hdir

theorem metadataName_build (pre ns executorID metadataKey : String) :
    metadataName pre ns executorID (buildMetadataKey pre ns executorID metadataKey) = metadataKey := by
  have hkey : buildMetadataKey pre ns executorID metadataKey =
      buildMetadataKey pre ns executorID "" ++ metadataKey := by
    simp [buildMetadataKey]
  rw [metadataName, hkey, trimPrefix_append]

/-- Keys that the parsers tell apart are different, so only the families that
no parser reads need a look at the strings. -/
theorem build_injective {k k' : LogicalKey} (hk : k.Valid) (hk' : k'.Valid)
    (h : k.build pre ns = k'.build pre ns) : k = k' := by
  have hdir : k.directory? = k'.directory? := by
    ext dir
    have hiff : ∀ key : LogicalKey, key.directory? = some dir ↔
        hasPrefix (key.build pre ns) (buildNamespacePrefix pre ns ++ dir.name) = true :=
      fun _ => hasPrefix_directory_iff.symm
    rw [hiff, hiff, h]
  cases k <;> cases k' <;> first | rfl | skip
  case executor.executor executorID keyType executorID' keyType' =>
    obtain ⟨rfl, rfl⟩ := buildExecutorKey_inj hk.2 hk'.2 h
    rfl
  case executor.metadata executorID keyType executorID' metadataKey' =>
    exact absurd h (buildExecutorKey_ne_buildMetadataKey hk.1 hk.2 _ _)
  case metadata.executor executorID metadataKey executorID' keyType' =>
    exact absurd h.symm (buildExecutorKey_ne_buildMetadataKey hk'.1 hk'.2 _ _)
  case metadata.metadata executorID metadataKey executorID' metadataKey' =>
    obtain ⟨rfl, rfl⟩ := buildMetadataKey_inj hk hk' h
    rfl
  case drainedShard.drainedShard shardID shardID' =>
    have hlist := congrArg String.toList h
    simp only [build, buildDrainedShardKey, String.toList_append] at hlist
    rw [String.toList_injective (List.append_cancel_left hlist)]
  case drainedHost.drainedHost host host' =>
    have hlist := congrArg String.toList h
    simp only [build, buildDrainedHostKey, String.toList_append] at hlist
    rw [String.toList_injective (List.append_cancel_left hlist)]
  case candidate.candidate lease lease' =>
    have hlist := congrArg String.toList h
    simp only [build, candidateKey, String.toList_append] at hlist
    rw [String.toList_injective (List.append_cancel_left hlist)]
  all_goals cases hdir

theorem contains_executorIDPrefix_iff {k : LogicalKey} (hk : k.Valid) {executorID : String}
    (hid : SlashFree executorID) :
    (Range.withPrefix (buildExecutorIDPrefix pre ns executorID)).contains (k.build pre ns) = true ↔
      k.executorKey?.map Prod.fst = some executorID := by
  by_cases hdir : k.directory? = some .executors
  · cases k with
    | executor executorID' keyType =>
      rw [Range.contains, build, hasPrefix_buildExecutorKey_iff hk.1 hid]
      simp [executorKey?, eq_comm]
    | metadata executorID' metadataKey =>
      rw [Range.contains, build, hasPrefix_buildMetadataKey_iff hk hid]
      simp [executorKey?, eq_comm]
    | _ => cases hdir
  · have hnone : k.executorKey? = none := by
      cases k <;> first | rfl | exact absurd rfl hdir
    rw [hnone]
    refine iff_of_false (fun hkey => hdir ?_) (by simp)
    have hexecutor : (buildExecutorsPrefix pre ns).toList <+: (buildExecutorIDPrefix pre ns executorID).toList := by
      simp [buildExecutorIDPrefix]
    rw [Range.contains, hasPrefix_iff] at hkey
    have hpre : hasPrefix (k.build pre ns) (buildExecutorsPrefix pre ns) = true :=
      hasPrefix_iff.mpr (hexecutor.trans hkey)
    exact hasPrefix_directory_iff.mp hpre

end LogicalKey

/-- The key format of a namespace. Each parser recovers what the keys of its
family were built from and rejects all other keys, the assignment version
included; no two keys are the same string; and the range of an executor holds
its keys only. Nothing is assumed of the prefix and of the namespace. -/
theorem keys_round_trip (pre ns : String) :
    (∀ k : LogicalKey, k.Valid →
      (parseExecutorKey pre ns (k.build pre ns)).toOption = k.executorKey? ∧
      (parseDrainedShardKey pre ns (k.build pre ns)).toOption = k.drainedShard? ∧
      (parseDrainedHostKey pre ns (k.build pre ns)).toOption = k.drainedHost?) ∧
    (∀ executorID metadataKey,
      metadataName pre ns executorID (buildMetadataKey pre ns executorID metadataKey) = metadataKey) ∧
    (∀ k k' : LogicalKey, k.Valid → k'.Valid → k.build pre ns = k'.build pre ns → k = k') ∧
    (∀ k : LogicalKey, k.Valid → ∀ executorID, SlashFree executorID →
      ((Range.withPrefix (buildExecutorIDPrefix pre ns executorID)).contains (k.build pre ns) = true ↔
        k.executorKey?.map Prod.fst = some executorID)) := by
  refine ⟨fun k hk => ⟨?_, ?_, ?_⟩, ?_, ?_, ?_⟩
  · exact LogicalKey.parseExecutorKey_build hk
  · exact LogicalKey.parseDrainedShardKey_build hk
  · exact LogicalKey.parseDrainedHostKey_build hk
  · exact LogicalKey.metadataName_build pre ns
  · exact fun k k' hk hk' h => LogicalKey.build_injective hk hk' h
  · exact fun k hk executorID hid => LogicalKey.contains_executorIDPrefix_iff hk hid

/-- A metadata key that looks like a path, of an executor as clients name them. -/
theorem zone_key_round_trips :
    (parseExecutorKey "/cadence" "orders" (buildMetadataKey "/cadence" "orders" "host@1" "zone/a")).toOption =
      some ("host@1", .metadata) ∧
    metadataName "/cadence" "orders" "host@1" (buildMetadataKey "/cadence" "orders" "host@1" "zone/a") = "zone/a" := by
  obtain ⟨hparse, hname, -⟩ := keys_round_trip "/cadence" "orders"
  have hid : SlashFree "host@1" := by decide
  exact ⟨(hparse (.metadata "host@1" "zone/a") hid).1, hname "host@1" "zone/a"⟩

end etcdkeys
