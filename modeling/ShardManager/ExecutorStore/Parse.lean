import ShardManager.Abstract.Code
import ShardManager.EtcdKeys.Separation
import ShardManager.ExecutorStore.Values
import ShardManager.Golang.Float64

open golang etcd etcdkeys store types

namespace etcdtypes

variable {F : Type}

/-- Everything stored about one executor. -/
structure ParsedExecutorData (F : Type) where
  lastHeartbeat : Time
  status : ExecutorStatus
  reportedShards : Map String (Option (ShardStatusReport F))
  assignedState : Option store.AssignedState
  metadata : Map String String
  statistics : Map String (ShardStatistics F)
  hostMetadata : Option HostMetadata

/-- The bytes of a stored value. They matter where the code reads a value as a
string, which is stored as it is, and where it compares values before decoding
them: a record is never empty and can be decoded in one way only. What the
decoder says about a value of another kind is left open. -/
class Encoding (F : Type) where
  bytes : Value F → String
  decodeError : Value F → String
  bytes_text : ∀ s, bytes (.text s) = s
  bytes_assignedState_inj : ∀ {a b}, bytes (.assignedState a) = bytes (.assignedState b) → a = b
  bytes_assignedState_ne : ∀ a, bytes (.assignedState a) ≠ ""

section Example

instance : Code ShardAssignment := Code.comap (fun a => match a.status with | .invalid => 'i' | .ready => 'r') <| by
  rintro ⟨a⟩ ⟨b⟩ h
  cases a <;> cases b <;> first | rfl | exact absurd h (by decide)

instance : Code HandoverType := Code.comap
    (fun | .invalid => 'i' | .graceful => 'g' | .emergency => 'e') <| by
  intro a b h
  cases a <;> cases b <;> first | rfl | exact absurd h (by decide)

instance : Code ShardHandoverStats := Code.comap
    (fun stats => (stats.previousExecutorLastHeartbeatTime, stats.handoverType)) <| by
  rintro ⟨a, b⟩ ⟨c, d⟩ h
  cases h
  rfl

instance : Code AssignedState := Code.comap
    (fun state => (state.assignedShards, state.shardHandoverStats, state.lastUpdated)) <| by
  rintro ⟨a, b, c⟩ ⟨d, e, f⟩ h
  cases h
  rfl

/-- Records are written in one of the ways that can be read back. -/
@[reducible] def Encoding.ofCode (F : Type) : Encoding F where
  bytes
    | .text s => s
    | .assignedState state => String.ofList ('=' :: Code.encode state)
    | _ => ""
  decodeError _ := "unmarshal: unexpected end of JSON input"
  bytes_text _ := rfl
  bytes_assignedState_inj h := Code.encode_injective (List.cons.inj (String.ofList_injective h)).2
  bytes_assignedState_ne a h := by
    have hnil := congrArg String.toList h
    simp at hnil

instance : Encoding ExactFloat := .ofCode ExactFloat

end Example

end etcdtypes

namespace common

open etcdtypes (Value ParsedExecutorData Encoding)

variable {F : Type}

def newParsedExecutorData : ParsedExecutorData F where
  lastHeartbeat := 0
  status := .invalid
  reportedShards := ∅
  assignedState := none
  metadata := ∅
  statistics := ∅
  hostMetadata := none

/-- Decoding a record that holds something else fails. -/
def unexpected [Encoding F] {α : Type} (what executorID : String) (value : Value F) : Except String α :=
  .error s!"parse {what} for {executorID}: {Encoding.decodeError value}"

section Model

variable [Encoding F] (pre ns : String)

/-- The metadata name of a key, as trimmed from it. -/
def metadataName (executorID key : String) : String :=
  trimPrefix key (buildMetadataKey pre ns executorID "")

/-- Reads one key into the data of its executor. `none` skips a key written by
a newer binary. -/
def parseKeyInto (executorID key : String) (keyType : ExecutorKeyType) (kv : KeyValue (Value F))
    (execData : ParsedExecutorData F) : Except String (Option (ParsedExecutorData F)) :=
  match keyType with
  | .heartbeat =>
    match kv.value with
    | .time t => .ok (some { execData with lastHeartbeat := t })
    | value => unexpected "heartbeat time" executorID value
  | .status =>
    match kv.value with
    | .status status => .ok (some { execData with status := status })
    | value => unexpected "executor status" executorID value
  | .reportedShards =>
    match kv.value with
    -- Decoding adds to a map that is there, but a range lists a key only once.
    | .reportedShards reports => .ok (some { execData with reportedShards := Map.ofList reports })
    | value => unexpected "reported shards" executorID value
  | .assignedState =>
    match kv.value with
    | .assignedState record =>
      .ok (some { execData with assignedState := some (record.toAssignedState kv.modRevision) })
    | value => unexpected "assigned state" executorID value
  | .metadata =>
    .ok (some { execData with
      metadata := execData.metadata.insert (metadataName pre ns executorID key) (Encoding.bytes kv.value) })
  | .shardStatistics =>
    match kv.value with
    | .statistics statistics => .ok (some { execData with statistics := Map.ofList statistics })
    | value => unexpected "shard statistics" executorID value
  | .hostMetadata =>
    match kv.value with
    | .hostMetadata host => .ok (some { execData with hostMetadata := some host })
    | value => unexpected "host metadata" executorID value
  | .unknown _ => .ok none

def parseExecutorKV (data : Map String (ParsedExecutorData F)) (entry : String × KeyValue (Value F)) :
    Except String (Map String (ParsedExecutorData F)) :=
  match parseExecutorKey pre ns entry.1 with
  | .error reason => .error s!"parse executor key {entry.1}: {reason}"
  | .ok (executorID, keyType) =>
    match parseKeyInto pre ns executorID entry.1 keyType entry.2
        ((data.lookup executorID).getD newParsedExecutorData) with
    | .error message => .error message
    | .ok none => .ok data
    | .ok (some execData) => .ok (data.insert executorID execData)

/-- Groups the keys of a namespace by executor. -/
def parseExecutorKVs (kvs : List (String × KeyValue (Value F))) :
    Except String (Map String (ParsedExecutorData F)) :=
  kvs.foldlM (parseExecutorKV pre ns) ∅

/-- What `ParseExecutorAssignmentKVs` collects. -/
abbrev Assignments := Map String (Map String String) × Map String store.AssignedState

def parseExecutorAssignmentKV (acc : Assignments) (entry : String × KeyValue (Value F)) :
    Except String Assignments :=
  match parseExecutorKey pre ns entry.1 with
  | .error reason => .error s!"parse executor key {entry.1}: {reason}"
  | .ok (executorID, keyType) =>
    let executorMetadata := (acc.1.lookup executorID).getD ∅
    match keyType with
    | .assignedState =>
      match entry.2.value with
      | .assignedState record => .ok (acc.1.insert executorID executorMetadata,
          acc.2.insert executorID (record.toAssignedState entry.2.modRevision))
      | value => unexpected "assigned state" executorID value
    | .metadata => .ok (acc.1.insert executorID
        (executorMetadata.insert (metadataName pre ns executorID entry.1) (Encoding.bytes entry.2.value)), acc.2)
    | .unknown _ => .ok acc
    -- Not read here, but the key still proves the executor exists.
    | _ => .ok (acc.1.insert executorID executorMetadata, acc.2)

/-- Decodes only the assignment and metadata keys. -/
def parseExecutorAssignmentKVs (kvs : List (String × KeyValue (Value F))) : Except String Assignments :=
  kvs.foldlM (parseExecutorAssignmentKV pre ns) (∅, ∅)

end Model

section Spec

variable [Encoding F] {pre ns : String}

/-- Everything one key can do to the collected assignments. -/
theorem parseExecutorAssignmentKV_ok {acc acc' : Assignments} {entry : String × KeyValue (Value F)}
    (h : parseExecutorAssignmentKV pre ns acc entry = .ok acc') :
    ∃ executorID keyType, parseExecutorKey pre ns entry.1 = .ok (executorID, keyType) ∧
      ((¬keyType.Known ∧ acc' = acc) ∨
      (keyType = .assignedState ∧ ∃ record, entry.2.value = .assignedState record ∧
        acc' = (acc.1.insert executorID ((acc.1.lookup executorID).getD ∅),
          acc.2.insert executorID (record.toAssignedState entry.2.modRevision))) ∨
      (keyType = .metadata ∧ acc' = (acc.1.insert executorID (((acc.1.lookup executorID).getD ∅).insert
        (metadataName pre ns executorID entry.1) (Encoding.bytes entry.2.value)), acc.2)) ∨
      (keyType.Known ∧ keyType ≠ .assignedState ∧ keyType ≠ .metadata ∧
        acc' = (acc.1.insert executorID ((acc.1.lookup executorID).getD ∅), acc.2))) := by
  unfold parseExecutorAssignmentKV at h
  cases hkey : parseExecutorKey pre ns entry.1 with
  | error reason =>
    rw [hkey] at h
    cases h
  | ok parsed =>
    obtain ⟨executorID, keyType⟩ := parsed
    rw [hkey] at h
    refine ⟨executorID, keyType, rfl, ?_⟩
    cases keyType with
    | assignedState =>
      refine .inr (.inl ⟨rfl, ?_⟩)
      cases hvalue : entry.2.value with
      | assignedState record =>
        simp only [hvalue, Except.ok.injEq] at h
        exact ⟨record, rfl, h.symm⟩
      | _ => simp [hvalue, unexpected] at h
    | metadata =>
      cases h
      exact .inr (.inr (.inl ⟨rfl, rfl⟩))
    | unknown name =>
      cases h
      exact .inl ⟨id, rfl⟩
    | _ =>
      cases h
      exact .inr (.inr (.inr ⟨trivial, by simp, by simp, rfl⟩))

/-- The entries hold the record of an executor. -/
def HasRecord (pre ns : String) (kvs : List (String × KeyValue (Value F))) (executorID : String)
    (state : store.AssignedState) : Prop :=
  SlashFree executorID ∧ ∃ kv record, (buildExecutorKey pre ns executorID .assignedState, kv) ∈ kvs ∧
    kv.value = .assignedState record ∧ state = record.toAssignedState kv.modRevision

/-- The entries hold a metadata value of an executor. -/
def HasMetadata (pre ns : String) (kvs : List (String × KeyValue (Value F)))
    (executorID name value : String) : Prop :=
  SlashFree executorID ∧ ∃ kv, (buildMetadataKey pre ns executorID name, kv) ∈ kvs ∧
    Encoding.bytes kv.value = value

/-- No entry sits at the directory name of an executor's metadata. Nothing
writes such a key, but reading one would take the whole key as the name. -/
def NoBareMetadata (pre ns : String) (kvs : List (String × KeyValue (Value F))) : Prop :=
  ∀ entry ∈ kvs, ∀ executorID, SlashFree executorID → entry.1 ≠ buildExecutorKey pre ns executorID .metadata

omit [Encoding F] in
/-- A key found after one more entry was found before or is its key. -/
theorem exists_mem_append_singleton {kvs : List (String × KeyValue (Value F))} {entry : String × KeyValue (Value F)}
    {key : String} {Q : KeyValue (Value F) → Prop} :
    (∃ kv, (key, kv) ∈ kvs ++ [entry] ∧ Q kv) ↔ (∃ kv, (key, kv) ∈ kvs ∧ Q kv) ∨ entry.1 = key ∧ Q entry.2 := by
  constructor
  · rintro ⟨kv, hmem, hkv⟩
    rcases List.mem_append.mp hmem with hmem | hmem
    · exact .inl ⟨kv, hmem, hkv⟩
    · cases List.mem_singleton.mp hmem
      exact .inr ⟨rfl, hkv⟩
  · rintro (⟨kv, hmem, hkv⟩ | ⟨rfl, hkv⟩)
    · exact ⟨kv, List.mem_append_left _ hmem, hkv⟩
    · exact ⟨entry.2, List.mem_append_right _ (List.mem_singleton_self _), hkv⟩

omit [Encoding F] in
theorem hasRecord_append_singleton {kvs : List (String × KeyValue (Value F))}
    {entry : String × KeyValue (Value F)} {executorID : String} {state : store.AssignedState} :
    HasRecord pre ns (kvs ++ [entry]) executorID state ↔ HasRecord pre ns kvs executorID state ∨
      SlashFree executorID ∧ entry.1 = buildExecutorKey pre ns executorID .assignedState ∧
        ∃ record, entry.2.value = .assignedState record ∧ state = record.toAssignedState entry.2.modRevision := by
  simp only [HasRecord, exists_and_left, exists_mem_append_singleton, and_or_left]

theorem hasMetadata_append_singleton {kvs : List (String × KeyValue (Value F))}
    {entry : String × KeyValue (Value F)} {executorID name value : String} :
    HasMetadata pre ns (kvs ++ [entry]) executorID name value ↔
      HasMetadata pre ns kvs executorID name value ∨
      SlashFree executorID ∧ entry.1 = buildMetadataKey pre ns executorID name ∧
        Encoding.bytes entry.2.value = value := by
  simp only [HasMetadata, exists_mem_append_singleton, and_or_left]

variable {kvs : List (String × KeyValue (Value F))} {result : Assignments}

omit [Encoding F] in
theorem not_mem_seen {seen rest : List (String × KeyValue (Value F))}
    {entry : String × KeyValue (Value F)} (hnodup : (kvs.map Prod.fst).Nodup)
    (hkvs : kvs = seen ++ entry :: rest) (kv : KeyValue (Value F)) : (entry.1, kv) ∉ seen := by
  intro hmem
  rw [hkvs, List.map_append, List.nodup_append] at hnodup
  exact hnodup.2.2 _ (List.mem_map_of_mem hmem) _ (List.mem_map_of_mem List.mem_cons_self) rfl

/-- The assignments read are the records of the namespace. -/
theorem parseExecutorAssignmentKVs_assignments (hnodup : (kvs.map Prod.fst).Nodup)
    (h : parseExecutorAssignmentKVs pre ns kvs = .ok result) (executorID : String)
    (state : store.AssignedState) :
    result.2.lookup executorID = some state ↔ HasRecord pre ns kvs executorID state := by
  refine foldlM_ok_induction (fun seen acc => ∀ executorID state,
    acc.2.lookup executorID = some state ↔ HasRecord pre ns seen executorID state) ?_ ?_ h executorID state
  · intro executorID state
    simp [HasRecord]
  · intro seen entry rest acc acc' hkvs hacc hstep executorID state
    obtain ⟨e, keyType, hparse, hcases⟩ := parseExecutorAssignmentKV_ok hstep
    rw [hasRecord_append_singleton, ← hacc executorID state]
    by_cases hentry : SlashFree executorID ∧ entry.1 = buildExecutorKey pre ns executorID .assignedState
    · obtain ⟨hid, hkey⟩ := hentry
      rw [hkey, parseExecutorKey_buildExecutorKey hid ExecutorKeyType.known_assignedState] at hparse
      cases hparse
      have hnone : acc.2.lookup executorID ≠ some state := by
        intro hlookup
        obtain ⟨-, kv, -, hmem, -⟩ := (hacc executorID state).mp hlookup
        rw [← hkey] at hmem
        exact not_mem_seen hnodup hkvs kv hmem
      rcases hcases with ⟨hunknown, -⟩ | ⟨-, record, hvalue, rfl⟩ | ⟨hne, -⟩ | ⟨-, hne, -⟩
      · exact absurd trivial hunknown
      · change (acc.2.insert executorID _).lookup executorID = some state ↔ _
        rw [Map.lookup_insert_eq, if_pos rfl, Option.some.injEq, or_iff_right hnone]
        simp [hid, hkey, hvalue, eq_comm]
      · cases hne
      · exact absurd rfl hne
    · -- The entry is not the record of the executor.
      have hsame : acc'.2.lookup executorID = acc.2.lookup executorID := by
        rcases hcases with ⟨-, rfl⟩ | ⟨rfl, record, -, rfl⟩ | ⟨-, rfl⟩ | ⟨-, -, -, rfl⟩
        · rfl
        · refine (Map.lookup_insert_eq ..).trans (if_neg ?_)
          rintro rfl
          obtain ⟨he, hkey | ⟨hkt, -⟩⟩ := parseExecutorKey_eq_ok hparse
          · exact hentry ⟨he, hkey⟩
          · cases hkt
        · rfl
        · rfl
      rw [hsame]
      refine (or_iff_left ?_).symm
      rintro ⟨hid, hkey, -⟩
      exact hentry ⟨hid, hkey⟩

/-- Indexing the metadata of an executor that may have none. -/
def metadataOf (metadata : Map String (Map String String)) (executorID : String) : Map String String :=
  (metadata.lookup executorID).getD ∅

theorem metadataOf_insert (metadata : Map String (Map String String)) (executorID e : String)
    (m : Map String String) :
    metadataOf (metadata.insert e m) executorID = if executorID = e then m else metadataOf metadata executorID := by
  unfold metadataOf
  rw [Map.lookup_insert_eq]
  split <;> rfl

/-- The metadata read are the metadata values of the namespace. -/
theorem parseExecutorAssignmentKVs_metadata (hnodup : (kvs.map Prod.fst).Nodup)
    (hbare : NoBareMetadata pre ns kvs) (h : parseExecutorAssignmentKVs pre ns kvs = .ok result)
    (executorID name value : String) :
    (metadataOf result.1 executorID).lookup name = some value ↔
      HasMetadata pre ns kvs executorID name value := by
  refine foldlM_ok_induction (fun seen acc => ∀ executorID name value,
    (metadataOf acc.1 executorID).lookup name = some value ↔ HasMetadata pre ns seen executorID name value)
    ?_ ?_ h executorID name value
  · intro executorID name value
    simp [HasMetadata, metadataOf]
  · intro seen entry rest acc acc' hkvs hacc hstep executorID name value
    obtain ⟨e, keyType, hparse, hcases⟩ := parseExecutorAssignmentKV_ok hstep
    rw [hasMetadata_append_singleton, ← hacc executorID name value]
    have hname : ∀ e name, metadataName pre ns e (buildMetadataKey pre ns e name) = name := by
      intro e name
      simp [metadataName, buildMetadataKey]
    by_cases hentry : SlashFree executorID ∧ entry.1 = buildMetadataKey pre ns executorID name
    · obtain ⟨hid, hkey⟩ := hentry
      rw [hkey, parseExecutorKey_buildMetadataKey hid] at hparse
      cases hparse
      have hnone : (metadataOf acc.1 executorID).lookup name ≠ some value := by
        intro hlookup
        obtain ⟨-, kv, hmem, -⟩ := (hacc executorID name value).mp hlookup
        rw [← hkey] at hmem
        exact not_mem_seen hnodup hkvs kv hmem
      rcases hcases with ⟨hunknown, -⟩ | ⟨hne, -⟩ | ⟨-, rfl⟩ | ⟨-, -, hne, -⟩
      · exact absurd trivial hunknown
      · cases hne
      · change (metadataOf (acc.1.insert executorID ((metadataOf acc.1 executorID).insert _ _)) executorID).lookup name =
          some value ↔ _
        rw [hkey, hname, metadataOf_insert, if_pos rfl, Map.lookup_insert_eq, if_pos rfl, Option.some.injEq,
          or_iff_right hnone]
        simp [hid]
      · exact absurd rfl hne
    · -- The entry is not this metadata of the executor.
      have hkeep : metadataOf (acc.1.insert e (metadataOf acc.1 e)) executorID = metadataOf acc.1 executorID := by
        rw [metadataOf_insert]
        split
        · rename_i heq
          rw [heq]
        · rfl
      have hsame : (metadataOf acc'.1 executorID).lookup name = (metadataOf acc.1 executorID).lookup name := by
        rcases hcases with ⟨-, rfl⟩ | ⟨-, record, -, rfl⟩ | ⟨rfl, rfl⟩ | ⟨-, -, -, rfl⟩
        · rfl
        · exact congrArg (AList.lookup name) hkeep
        · obtain ⟨he, hkey | ⟨-, name', hkey⟩⟩ := parseExecutorKey_eq_ok hparse
          · exact absurd hkey (hbare entry (by simp [hkvs]) e he)
          · change (metadataOf (acc.1.insert e ((metadataOf acc.1 e).insert _ _)) executorID).lookup name = _
            rw [hkey, hname, metadataOf_insert]
            split
            · rename_i heq
              subst heq
              rw [Map.lookup_insert_eq, if_neg]
              rintro rfl
              exact hentry ⟨he, hkey⟩
            · rfl
        · exact congrArg (AList.lookup name) hkeep
      rw [hsame]
      refine (or_iff_left ?_).symm
      rintro ⟨hid, hkey, -⟩
      exact hentry ⟨hid, hkey⟩

/-- An entry that the assignment parse accepts. -/
def AssignmentDecodes (pre ns : String) (entry : String × KeyValue (Value F)) : Prop :=
  ∃ executorID keyType, parseExecutorKey pre ns entry.1 = .ok (executorID, keyType) ∧
    (keyType = .assignedState → ∃ record, entry.2.value = .assignedState record)

theorem parseExecutorAssignmentKV_isOk_iff (acc : Assignments) (entry : String × KeyValue (Value F)) :
    (∃ acc', parseExecutorAssignmentKV pre ns acc entry = .ok acc') ↔ AssignmentDecodes pre ns entry := by
  constructor
  · rintro ⟨acc', h⟩
    obtain ⟨executorID, keyType, hparse, hcases⟩ := parseExecutorAssignmentKV_ok h
    refine ⟨executorID, keyType, hparse, ?_⟩
    rintro rfl
    rcases hcases with ⟨hunknown, -⟩ | ⟨-, record, hvalue, -⟩ | ⟨hne, -⟩ | ⟨-, hne, -⟩
    · exact absurd ExecutorKeyType.known_assignedState hunknown
    · exact ⟨record, hvalue⟩
    · cases hne
    · exact absurd rfl hne
  · rintro ⟨executorID, keyType, hparse, hrecord⟩
    unfold parseExecutorAssignmentKV
    rw [hparse]
    cases keyType with
    | assignedState =>
      obtain ⟨record, hvalue⟩ := hrecord rfl
      dsimp only
      rw [hvalue]
      exact ⟨_, rfl⟩
    | _ => exact ⟨_, rfl⟩

/-- A parse that succeeds found a record at every record key. -/
theorem assignedState_of_mem (h : parseExecutorAssignmentKVs pre ns kvs = .ok result)
    {executorID : String} (hid : SlashFree executorID) {kv : KeyValue (Value F)}
    (hmem : (buildExecutorKey pre ns executorID .assignedState, kv) ∈ kvs) :
    ∃ record, kv.value = .assignedState record := by
  obtain ⟨e, keyType, hparse, hrecord⟩ := (foldlM_isOk_iff parseExecutorAssignmentKV_isOk_iff).mp ⟨_, h⟩ _ hmem
  rw [parseExecutorKey_buildExecutorKey hid ExecutorKeyType.known_assignedState] at hparse
  cases hparse
  exact hrecord rfl

/-- Every executor with a record has a metadata entry, and the identifiers of
those that are read are single segments. -/
theorem executors_of_parse (h : parseExecutorAssignmentKVs pre ns kvs = .ok result) :
    (∀ executorID ∈ result.2, executorID ∈ result.1) ∧ ∀ executorID ∈ result.1, SlashFree executorID := by
  refine foldlM_ok_induction (fun _ acc => (∀ executorID ∈ acc.2, executorID ∈ acc.1) ∧
    ∀ executorID ∈ acc.1, SlashFree executorID) ⟨by simp, by simp⟩ ?_ h
  rintro seen entry rest acc acc' - ⟨hrecords, hids⟩ hstep
  obtain ⟨e, keyType, hparse, hcases⟩ := parseExecutorAssignmentKV_ok hstep
  have hids' : ∀ metadata, ∀ executorID ∈ acc.1.insert e metadata, SlashFree executorID := by
    intro metadata executorID hmem
    rcases (AList.mem_insert _).mp hmem with rfl | hmem
    · exact (parseExecutorKey_eq_ok hparse).1
    · exact hids executorID hmem
  rcases hcases with ⟨-, rfl⟩ | ⟨-, record, -, rfl⟩ | ⟨-, rfl⟩ | ⟨-, -, -, rfl⟩
  · exact ⟨hrecords, hids⟩
  · exact ⟨fun x hx => (AList.mem_insert _).mpr (((AList.mem_insert _).mp hx).imp_right (hrecords x)), hids' _⟩
  all_goals exact ⟨fun x hx => (AList.mem_insert _).mpr (.inr (hrecords x hx)), hids' _⟩

/-- Everything one entry can do to what was read so far. -/
theorem parseExecutorKV_ok {data data' : Map String (ParsedExecutorData F)} {entry : String × KeyValue (Value F)}
    (h : parseExecutorKV pre ns data entry = .ok data') :
    ∃ executorID keyType, parseExecutorKey pre ns entry.1 = .ok (executorID, keyType) ∧
      ∃ result, parseKeyInto pre ns executorID entry.1 keyType entry.2
          ((data.lookup executorID).getD newParsedExecutorData) = .ok result ∧
        data' = (result.map (data.insert executorID)).getD data := by
  unfold parseExecutorKV at h
  cases hkey : parseExecutorKey pre ns entry.1 with
  | error reason =>
    rw [hkey] at h
    cases h
  | ok parsed =>
    obtain ⟨executorID, keyType⟩ := parsed
    rw [hkey] at h
    refine ⟨executorID, keyType, rfl, ?_⟩
    dsimp only at h
    split at h
    · cases h
    · rename_i hinto
      cases h
      exact ⟨none, hinto, rfl⟩
    · rename_i execData hinto
      cases h
      exact ⟨some execData, hinto, rfl⟩

/-- What a key of each known type does to the data of its executor. -/
inductive Sets (pre ns executorID key : String) (kv : KeyValue (Value F)) (execData : ParsedExecutorData F) :
    ExecutorKeyType → ParsedExecutorData F → Prop where
  | heartbeat {t : Time} (h : kv.value = .time t) :
      Sets pre ns executorID key kv execData .heartbeat { execData with lastHeartbeat := t }
  | status {status : ExecutorStatus} (h : kv.value = .status status) :
      Sets pre ns executorID key kv execData .status { execData with status := status }
  | reportedShards {reports : List (String × Option (ShardStatusReport F))} (h : kv.value = .reportedShards reports) :
      Sets pre ns executorID key kv execData .reportedShards { execData with reportedShards := Map.ofList reports }
  | assignedState {record : etcdtypes.AssignedState} (h : kv.value = .assignedState record) :
      Sets pre ns executorID key kv execData .assignedState
        { execData with assignedState := some (record.toAssignedState kv.modRevision) }
  | metadata : Sets pre ns executorID key kv execData .metadata { execData with
      metadata := execData.metadata.insert (metadataName pre ns executorID key) (Encoding.bytes kv.value) }
  | shardStatistics {statistics : List (String × ShardStatistics F)} (h : kv.value = .statistics statistics) :
      Sets pre ns executorID key kv execData .shardStatistics { execData with statistics := Map.ofList statistics }
  | hostMetadata {host : HostMetadata} (h : kv.value = .hostMetadata host) :
      Sets pre ns executorID key kv execData .hostMetadata { execData with hostMetadata := some host }

theorem sets_of_parseKeyInto {executorID key : String} {kt : ExecutorKeyType} {kv : KeyValue (Value F)}
    {execData : ParsedExecutorData F} {result : Option (ParsedExecutorData F)}
    (h : parseKeyInto pre ns executorID key kt kv execData = .ok result) :
    (¬kt.Known ∧ result = none) ∨ ∃ execData', result = some execData' ∧
      Sets pre ns executorID key kv execData kt execData' := by
  cases kt with
  | metadata =>
    cases h
    exact .inr ⟨_, rfl, .metadata⟩
  | unknown name =>
    cases h
    exact .inl ⟨id, rfl⟩
  | _ =>
    cases hvalue : kv.value <;> simp only [parseKeyInto, hvalue, unexpected, Except.ok.injEq, reduceCtorEq] at h
    exact .inr ⟨_, h.symm, by constructor; exact hvalue⟩

/-- The full parse and the assignment parse agree on what they share. -/
def Agree (data : Map String (ParsedExecutorData F)) (acc : Assignments) : Prop :=
  ∀ executorID, acc.1.lookup executorID = (data.lookup executorID).map (·.metadata) ∧
    acc.2.lookup executorID = (data.lookup executorID).bind (·.assignedState)

omit [Encoding F] in
theorem Agree.insert {data : Map String (ParsedExecutorData F)} {acc : Assignments} (hagree : Agree data acc)
    (executorID : String) (execData : ParsedExecutorData F) {assignments : Map String store.AssignedState}
    (hassigned : ∀ e, assignments.lookup e =
      if e = executorID then execData.assignedState else acc.2.lookup e) :
    Agree (data.insert executorID execData) (acc.1.insert executorID execData.metadata, assignments) := by
  intro e
  rw [Map.lookup_insert_eq, Map.lookup_insert_eq, hassigned]
  split
  · exact ⟨rfl, rfl⟩
  · exact hagree e

omit [Encoding F] in
theorem Agree.getD {data : Map String (ParsedExecutorData F)} {acc : Assignments} (hagree : Agree data acc)
    (executorID : String) :
    ((data.lookup executorID).getD newParsedExecutorData).metadata = (acc.1.lookup executorID).getD ∅ ∧
      ((data.lookup executorID).getD newParsedExecutorData).assignedState = acc.2.lookup executorID := by
  obtain ⟨hmetadata, hassigned⟩ := hagree executorID
  rw [hmetadata, hassigned]
  cases data.lookup executorID with
  | none => exact ⟨rfl, rfl⟩
  | some execData => exact ⟨rfl, rfl⟩

/-- A key the full parse accepts does the same to both. -/
theorem Agree.step {data data' : Map String (ParsedExecutorData F)} {acc : Assignments}
    (hagree : Agree data acc) {entry : String × KeyValue (Value F)}
    (h : parseExecutorKV pre ns data entry = .ok data') :
    ∃ acc', parseExecutorAssignmentKV pre ns acc entry = .ok acc' ∧ Agree data' acc' := by
  obtain ⟨executorID, keyType, hkey, result, hinto, rfl⟩ := parseExecutorKV_ok h
  obtain ⟨hmetadata, hassigned⟩ := hagree.getD executorID
  generalize (data.lookup executorID).getD newParsedExecutorData = execData at hinto hmetadata hassigned
  unfold parseExecutorAssignmentKV
  rw [hkey]
  dsimp only
  rw [← hmetadata]
  have hkeep : ∀ e, acc.2.lookup e = if e = executorID then execData.assignedState else acc.2.lookup e := by
    intro e
    split
    · rename_i heq
      rw [heq, hassigned]
    · rfl
  rcases sets_of_parseKeyInto hinto with ⟨hunknown, rfl⟩ | ⟨execData', rfl, hsets⟩
  · cases keyType with
    | unknown name => exact ⟨_, rfl, hagree⟩
    | _ => exact absurd trivial hunknown
  · cases hsets with
    | assignedState hvalue =>
      rw [hvalue]
      exact ⟨_, rfl, hagree.insert executorID _ fun e => Map.lookup_insert_eq ..⟩
    | _ => exact ⟨_, rfl, hagree.insert executorID _ hkeep⟩

/-- What the full parse accepts, the assignment parse accepts with the same
metadata and assignments. -/
theorem parseExecutorAssignmentKVs_of_parseExecutorKVs {data : Map String (ParsedExecutorData F)}
    (h : parseExecutorKVs pre ns kvs = .ok data) :
    ∃ result, parseExecutorAssignmentKVs pre ns kvs = .ok result ∧ Agree data result := by
  refine foldlM_ok_induction (fun seen data => ∃ result, parseExecutorAssignmentKVs pre ns seen = .ok result ∧
    Agree data result) ⟨_, rfl, fun _ => ⟨rfl, rfl⟩⟩ ?_ h
  rintro seen entry rest data data' - ⟨acc, hacc, hagree⟩ hstep
  obtain ⟨acc', hstep', hagree'⟩ := hagree.step hstep
  refine ⟨acc', ?_, hagree'⟩
  rw [parseExecutorAssignmentKVs, List.foldlM_append]
  exact bind_eq_ok_iff.mpr ⟨acc, hacc, bind_eq_ok_iff.mpr ⟨acc', hstep', rfl⟩⟩

theorem slashFree_of_mem_parsed {data : Map String (ParsedExecutorData F)}
    (h : parseExecutorKVs pre ns kvs = .ok data) {executorID : String} (hmem : executorID ∈ data) :
    SlashFree executorID := by
  obtain ⟨result, hresult, hagree⟩ := parseExecutorAssignmentKVs_of_parseExecutorKVs h
  obtain ⟨executorData, hdata⟩ := Map.mem_iff_exists_lookup.mp hmem
  refine (executors_of_parse hresult).2 executorID ?_
  rw [Map.mem_iff_exists_lookup, (hagree executorID).1, hdata]
  exact ⟨_, rfl⟩

end Spec

end common
