import ShardManager.Etcd.Store
import ShardManager.Golang.Quote

open etcd

namespace hostname

def maxLength : Nat := 128

/-- A hostname has to survive an etcd key round trip and stay apart from the
rest of a `hostname@uuid` executor ID. -/
def validate (name : String) : Except String Unit :=
  if name = "" then .error "hostname must not be empty"
  else if maxLength < name.utf8ByteSize then .error s!"hostname {golang.quote name} exceeds {maxLength} bytes"
  else if '/' ∈ name.toList then .error s!"hostname {golang.quote name} must not contain '/'"
  else if '@' ∈ name.toList then .error s!"hostname {golang.quote name} must not contain '@'"
  else .ok ()

end hostname

namespace etcdkeys

/-- `strings.TrimPrefix`. -/
def trimPrefix (key pre : String) : String :=
  if hasPrefix key pre then String.ofList (key.toList.drop pre.toList.length) else key

@[simp] theorem trimPrefix_append (pre rest : String) : trimPrefix (pre ++ rest) pre = rest := by
  simp [trimPrefix]

theorem append_trimPrefix {key pre : String} (h : hasPrefix key pre = true) :
    pre ++ trimPrefix key pre = key := by
  obtain ⟨rest, hrest⟩ := hasPrefix_iff.mp h
  apply String.toList_injective
  rw [trimPrefix, if_pos h, String.toList_append, String.toList_ofList, ← hrest,
    List.drop_left]

/-- A string that is a single path segment. -/
def SlashFree (s : String) : Prop := '/' ∉ s.toList

instance (s : String) : Decidable (SlashFree s) := inferInstanceAs (Decidable (_ ∉ _))

def buildNamespacePrefix (pre ns : String) : String :=
  pre ++ "/" ++ ns ++ "/"

def buildExecutorsPrefix (pre ns : String) : String :=
  buildNamespacePrefix pre ns ++ "executors/"

def buildExecutorIDPrefix (pre ns executorID : String) : String :=
  buildExecutorsPrefix pre ns ++ executorID ++ "/"

/-- The executor-level keys. A key written by a newer binary keeps its name. -/
inductive ExecutorKeyType where
  | heartbeat
  | status
  | reportedShards
  | assignedState
  | metadata
  | shardStatistics
  | hostMetadata
  | unknown (name : String)
deriving DecidableEq, Repr

namespace ExecutorKeyType

def name : ExecutorKeyType → String
  | .heartbeat => "heartbeat"
  | .status => "status"
  | .reportedShards => "reported_shards"
  | .assignedState => "assigned_state"
  | .metadata => "metadata"
  | .shardStatistics => "statistics"
  | .hostMetadata => "host_metadata"
  | .unknown n => n

def ofName (n : String) : ExecutorKeyType :=
  if n = "heartbeat" then .heartbeat
  else if n = "status" then .status
  else if n = "reported_shards" then .reportedShards
  else if n = "assigned_state" then .assignedState
  else if n = "metadata" then .metadata
  else if n = "statistics" then .shardStatistics
  else if n = "host_metadata" then .hostMetadata
  else .unknown n

/-- Key types this binary writes. -/
def Known : ExecutorKeyType → Prop
  | .unknown _ => False
  | _ => True

instance : DecidablePred Known := fun kt => by
  cases kt <;> simp only [Known] <;> infer_instance

theorem known_assignedState : Known .assignedState := trivial

theorem known_metadata : Known .metadata := trivial

@[simp] theorem name_ofName (n : String) : (ofName n).name = n := by
  unfold ofName
  split_ifs <;> simp_all [name]

theorem ofName_name {kt : ExecutorKeyType} (h : kt.Known) : ofName kt.name = kt := by
  cases kt <;> first | rfl | exact h.elim

theorem slashFree_name {kt : ExecutorKeyType} (h : kt.Known) : SlashFree kt.name := by
  cases kt <;> first | decide | exact h.elim

end ExecutorKeyType

def buildExecutorKey (pre ns executorID : String) (keyType : ExecutorKeyType) : String :=
  buildExecutorIDPrefix pre ns executorID ++ keyType.name

def buildMetadataKey (pre ns executorID metadataKey : String) : String :=
  buildExecutorKey pre ns executorID .metadata ++ "/" ++ metadataKey

def parseExecutorKey (pre ns key : String) : Except String (String × ExecutorKeyType) :=
  let executorsPrefix := buildExecutorsPrefix pre ns
  if hasPrefix key executorsPrefix then
    match (trimPrefix key executorsPrefix).toList.splitOn '/' with
    | executorID :: keyType :: rest =>
      -- Metadata keys are executorID/metadata/metadataKey, all others executorID/keyType.
      if rest ≠ [] ∧ String.ofList keyType = ExecutorKeyType.metadata.name then
        .ok (String.ofList executorID, .metadata)
      else if rest ≠ [] then .error s!"unexpected key format: {key}"
      else .ok (String.ofList executorID, .ofName (String.ofList keyType))
    | _ => .error s!"unexpected key format: {key}"
  else .error s!"key '{key}' does not have expected prefix '{executorsPrefix}'"

def assignmentVersionsDir : String := "_assignment_versions"

def buildAssignmentVersionKey (pre ns : String) : String :=
  pre ++ "/" ++ assignmentVersionsDir ++ "/" ++ ns

def buildDrainedShardsPrefix (pre ns : String) : String :=
  buildNamespacePrefix pre ns ++ "drained_shards/"

def buildDrainedShardKey (pre ns shardID : String) : String :=
  buildDrainedShardsPrefix pre ns ++ shardID

def validateShardID (shardID : String) : Except String Unit :=
  if shardID = "" then .error "shard ID must not be empty"
  else if '/' ∈ shardID.toList then .error s!"shard ID '{shardID}' must not contain '/'"
  else .ok ()

def parseDrainedShardKey (pre ns key : String) : Except String String :=
  let drainedPrefix := buildDrainedShardsPrefix pre ns
  if hasPrefix key drainedPrefix then
    let shardID := trimPrefix key drainedPrefix
    match validateShardID shardID with
    | .ok () => .ok shardID
    | .error reason => .error s!"unexpected drained shard key format '{key}': {reason}"
  else .error s!"key '{key}' does not have expected drained shards prefix '{drainedPrefix}'"

def buildDrainedHostsPrefix (pre ns : String) : String :=
  buildNamespacePrefix pre ns ++ "drained_hosts/"

def buildDrainedHostKey (pre ns hostname : String) : String :=
  buildDrainedHostsPrefix pre ns ++ hostname

def parseDrainedHostKey (pre ns key : String) : Except String String :=
  let drainedPrefix := buildDrainedHostsPrefix pre ns
  if hasPrefix key drainedPrefix then
    let parsed := trimPrefix key drainedPrefix
    match hostname.validate parsed with
    | .ok () => .ok parsed
    | .error reason => .error s!"unexpected drained host key format '{key}': {reason}"
  else .error s!"key '{key}' does not have expected drained hosts prefix '{drainedPrefix}'"

section Parse

variable {pre ns : String}

theorem toList_buildExecutorKey (pre ns executorID : String) (kt : ExecutorKeyType) :
    (buildExecutorKey pre ns executorID kt).toList =
      (buildExecutorsPrefix pre ns).toList ++ (executorID.toList ++ '/' :: kt.name.toList) := by
  simp [buildExecutorKey, buildExecutorIDPrefix]

theorem toList_buildMetadataKey (pre ns executorID metadataKey : String) :
    (buildMetadataKey pre ns executorID metadataKey).toList =
      (buildExecutorsPrefix pre ns).toList ++
        (executorID.toList ++ '/' :: ("metadata".toList ++ '/' :: metadataKey.toList)) := by
  simp [buildMetadataKey, toList_buildExecutorKey, ExecutorKeyType.name]

private theorem parse_of_toList {key : String} {remainder : List Char}
    (hkey : key.toList = (buildExecutorsPrefix pre ns).toList ++ remainder) :
    hasPrefix key (buildExecutorsPrefix pre ns) = true ∧
      (trimPrefix key (buildExecutorsPrefix pre ns)).toList = remainder := by
  have hpre : hasPrefix key (buildExecutorsPrefix pre ns) = true := by
    rw [hasPrefix_iff, hkey]
    exact List.prefix_append _ _
  refine ⟨hpre, ?_⟩
  rw [trimPrefix, if_pos hpre, String.toList_ofList, hkey, List.drop_left]

/-- An executor key parses back to what it was built from. -/
theorem parseExecutorKey_buildExecutorKey {executorID : String} {kt : ExecutorKeyType}
    (hid : SlashFree executorID) (hkt : kt.Known) :
    parseExecutorKey pre ns (buildExecutorKey pre ns executorID kt) = .ok (executorID, kt) := by
  obtain ⟨hpre, htrim⟩ := parse_of_toList (toList_buildExecutorKey pre ns executorID kt)
  have hsplit : (executorID.toList ++ '/' :: kt.name.toList).splitOn '/' =
      [executorID.toList, kt.name.toList] := by
    rw [List.splitOn_append_cons_self_of_not_mem hid,
      List.splitOn_eq_singleton (ExecutorKeyType.slashFree_name hkt)]
  simp [parseExecutorKey, hpre, htrim, hsplit, ExecutorKeyType.ofName_name hkt]

theorem parseExecutorKey_buildMetadataKey {executorID : String} (hid : SlashFree executorID)
    (metadataKey : String) :
    parseExecutorKey pre ns (buildMetadataKey pre ns executorID metadataKey) =
      .ok (executorID, .metadata) := by
  obtain ⟨hpre, htrim⟩ :=
    parse_of_toList (toList_buildMetadataKey pre ns executorID metadataKey)
  have hsplit : (executorID.toList ++ '/' :: ("metadata".toList ++ '/' :: metadataKey.toList)).splitOn '/' =
      executorID.toList :: "metadata".toList :: metadataKey.toList.splitOn '/' := by
    rw [List.splitOn_append_cons_self_of_not_mem hid,
      List.splitOn_append_cons_self_of_not_mem (by decide)]
  simp only [parseExecutorKey, hpre, htrim, hsplit]
  simp [ExecutorKeyType.name]

/-- What parses as an executor key was built as one: the identifier is a single
segment, and only metadata keys have further segments. -/
theorem parseExecutorKey_eq_ok {key executorID : String} {kt : ExecutorKeyType}
    (h : parseExecutorKey pre ns key = .ok (executorID, kt)) :
    SlashFree executorID ∧ (key = buildExecutorKey pre ns executorID kt ∨
      kt = .metadata ∧ ∃ metadataKey, key = buildMetadataKey pre ns executorID metadataKey) := by
  unfold parseExecutorKey at h
  dsimp only at h
  by_cases hpre : hasPrefix key (buildExecutorsPrefix pre ns) = true
  · rw [if_pos hpre] at h
    have hkey : key.toList = (buildExecutorsPrefix pre ns).toList ++
        (trimPrefix key (buildExecutorsPrefix pre ns)).toList := by
      rw [← String.toList_append, append_trimPrefix hpre]
    generalize (trimPrefix key (buildExecutorsPrefix pre ns)).toList = remainder at h hkey
    by_cases hslash : '/' ∈ remainder
    · obtain ⟨first, tail, rfl, hfirst⟩ := List.eq_append_cons_of_mem hslash
      rw [List.splitOn_append_cons_self_of_not_mem hfirst] at h
      by_cases hslash' : '/' ∈ tail
      · obtain ⟨second, rest, rfl, hsecond⟩ := List.eq_append_cons_of_mem hslash'
        rw [List.splitOn_append_cons_self_of_not_mem hsecond] at h
        by_cases hmeta : String.ofList second = ExecutorKeyType.metadata.name
        · simp only [ne_eq, List.splitOn_ne_nil, not_false_eq_true, hmeta, and_self, ite_true,
            Except.ok.injEq, Prod.mk.injEq] at h
          obtain ⟨rfl, rfl⟩ := h
          refine ⟨by simpa [SlashFree] using hfirst, .inr ⟨rfl, String.ofList rest, ?_⟩⟩
          apply String.toList_injective
          have hsecond' : second = "metadata".toList := by
            rw [← String.toList_ofList (l := second), hmeta]; rfl
          rw [toList_buildMetadataKey, hkey, hsecond']
          simp
        · simp [hmeta] at h
      · rw [List.splitOn_eq_singleton hslash'] at h
        simp only [ne_eq, not_true_eq_false, false_and, ite_false, Except.ok.injEq,
          Prod.mk.injEq] at h
        obtain ⟨rfl, rfl⟩ := h
        refine ⟨by simpa [SlashFree] using hfirst, .inl ?_⟩
        apply String.toList_injective
        rw [toList_buildExecutorKey, hkey]
        simp
    · rw [List.splitOn_eq_singleton hslash] at h
      cases h
  · rw [if_neg hpre] at h
    cases h

end Parse

end etcdkeys
