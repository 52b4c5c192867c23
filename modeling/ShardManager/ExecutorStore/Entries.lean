import ShardManager.Etcd.Frame
import ShardManager.EtcdKeys.Separation
import ShardManager.ExecutorStore.Read

open golang etcd etcdkeys store types

namespace etcdtypes

variable {F : Type}

def Value.getTime : Value F → Time
  | .time t => t
  | _ => 0

def Value.getStatus : Value F → ExecutorStatus
  | .status value => value
  | _ => .invalid

def Value.getReportedShards : Value F → Map String (Option (ShardStatusReport F))
  | .reportedShards reports => Map.ofList reports
  | _ => ∅

def Value.getStatistics : Value F → Map String (ShardStatistics F)
  | .statistics entries => Map.ofList entries
  | _ => ∅

def Value.getHostMetadata : Value F → Option HostMetadata
  | .hostMetadata host => some host
  | _ => none

def getAssignedState (kv : KeyValue (Value F)) : Option store.AssignedState :=
  match kv.value with
  | .assignedState record => some (record.toAssignedState kv.modRevision)
  | _ => none

end etcdtypes

namespace common

open etcdtypes (Value ParsedExecutorData Encoding)

variable {F : Type} {pre ns : String}

/-- The value can be read at a key of the type. -/
def fits : ExecutorKeyType → Value F → Bool
  | .heartbeat, .time _ => true
  | .status, .status _ => true
  | .reportedShards, .reportedShards _ => true
  | .assignedState, .assignedState _ => true
  | .shardStatistics, .statistics _ => true
  | .hostMetadata, .hostMetadata _ => true
  | .metadata, _ => true
  | .unknown _, _ => true
  | _, _ => false

/-- The entry does not make a parse of its namespace fail. -/
def Decodes (pre ns : String) (entry : String × KeyValue (Value F)) : Prop :=
  ∃ executorID keyType, parseExecutorKey pre ns entry.1 = .ok (executorID, keyType) ∧
    fits keyType entry.2.value = true

variable [Encoding F]

section Success

theorem parseKeyInto_isOk {executorID key : String} {keyType : ExecutorKeyType} {kv : KeyValue (Value F)}
    {execData : ParsedExecutorData F} :
    (parseKeyInto pre ns executorID key keyType kv execData).isOk = fits keyType kv.value := by
  cases keyType <;> cases hvalue : kv.value <;> simp [parseKeyInto, fits, hvalue, unexpected, Except.isOk, Except.toBool]

theorem parseExecutorKV_isOk_iff {data : Map String (ParsedExecutorData F)} {entry : String × KeyValue (Value F)} :
    (∃ data', parseExecutorKV pre ns data entry = .ok data') ↔ Decodes pre ns entry := by
  unfold parseExecutorKV Decodes
  cases hkey : parseExecutorKey pre ns entry.1 with
  | error reason => simp
  | ok parsed =>
    obtain ⟨executorID, keyType⟩ := parsed
    have hok := @parseKeyInto_isOk _ pre ns _ executorID entry.1 keyType entry.2
      ((data.lookup executorID).getD newParsedExecutorData)
    dsimp only
    cases hinto : parseKeyInto pre ns executorID entry.1 keyType entry.2
        ((data.lookup executorID).getD newParsedExecutorData) with
    | error message =>
      rw [hinto] at hok
      have hfits : fits keyType entry.2.value = false := hok.symm
      simp [hfits]
    | ok result =>
      rw [hinto] at hok
      have hfits : fits keyType entry.2.value = true := hok.symm
      cases result <;> simp [hfits]

/-- A parse succeeds exactly if every entry decodes. -/
theorem parseExecutorKVs_isOk_iff {kvs : List (String × KeyValue (Value F))} :
    (∃ data, parseExecutorKVs pre ns kvs = .ok data) ↔ ∀ entry ∈ kvs, Decodes pre ns entry := by
  have hstep : ∀ (data : Map String (ParsedExecutorData F)) (entry : String × KeyValue (Value F)),
      (∃ data', parseExecutorKV pre ns data entry = .ok data') ↔ Decodes pre ns entry :=
    fun _ _ => parseExecutorKV_isOk_iff
  unfold parseExecutorKVs
  exact foldlM_isOk_iff hstep

end Success

section Executor

/-- The key belongs to the executor. -/
def isOf (pre ns executorID key : String) : Bool :=
  match parseExecutorKey pre ns key with
  | .ok (e, _) => decide (e = executorID)
  | .error _ => false

/-- Reads one entry into the data of an executor. -/
def visitOf (pre ns executorID : String) (acc : Option (ParsedExecutorData F))
    (entry : String × KeyValue (Value F)) : Option (ParsedExecutorData F) :=
  match parseExecutorKey pre ns entry.1 with
  | .ok (_, keyType) =>
    match parseKeyInto pre ns executorID entry.1 keyType entry.2 (acc.getD newParsedExecutorData) with
    | .ok (some execData) => some execData
    | _ => acc
  | .error _ => acc

/-- What is read of one executor, from its own entries. -/
def executorOf (pre ns executorID : String) (kvs : List (String × KeyValue (Value F))) :
    Option (ParsedExecutorData F) :=
  (kvs.filter fun entry => isOf pre ns executorID entry.1).foldl (visitOf pre ns executorID) none

theorem executorOf_append_singleton (executorID : String) (kvs : List (String × KeyValue (Value F)))
    (entry : String × KeyValue (Value F)) :
    executorOf pre ns executorID (kvs ++ [entry]) =
      if isOf pre ns executorID entry.1 then visitOf pre ns executorID (executorOf pre ns executorID kvs) entry
      else executorOf pre ns executorID kvs := by
  unfold executorOf
  rw [List.filter_append, List.foldl_append, List.filter_cons]
  split <;> rfl

/-- A parse reads every executor from its own entries. -/
theorem lookup_parseExecutorKVs {kvs : List (String × KeyValue (Value F))}
    {data : Map String (ParsedExecutorData F)} (h : parseExecutorKVs pre ns kvs = .ok data) (executorID : String) :
    data.lookup executorID = executorOf pre ns executorID kvs := by
  refine foldlM_ok_induction (fun seen acc => acc.lookup executorID = executorOf pre ns executorID seen) ?_ ?_ h
  · rfl
  · intro seen entry rest acc acc' _ hacc hstep
    rw [executorOf_append_singleton, ← hacc]
    obtain ⟨e, keyType, hkey, result, hinto, rfl⟩ := parseExecutorKV_ok hstep
    unfold isOf visitOf
    rw [hkey]
    dsimp only
    by_cases he : e = executorID
    · subst he
      rw [if_pos (decide_eq_true rfl), hinto]
      cases result with
      | none => rfl
      | some execData => exact (Map.lookup_insert_eq ..).trans (if_pos rfl)
    · rw [if_neg (by rw [decide_eq_true_eq]; exact he)]
      cases result with
      | none => rfl
      | some execData => exact (Map.lookup_insert_eq ..).trans (if_neg (Ne.symm he))

end Executor

section Field

/-- A field that the keys of one type set and all others leave alone. -/
structure FieldOf {α : Type} (keyType : ExecutorKeyType) (field : ParsedExecutorData F → α)
    (decode : KeyValue (Value F) → α) : Prop where
  known : keyType.Known
  single : keyType ≠ .metadata
  set : ∀ {pre ns executorID key kv execData result},
    parseKeyInto pre ns executorID key keyType kv execData = .ok result →
      ∃ execData', result = some execData' ∧ field execData' = decode kv
  keep : ∀ {pre ns executorID key kt kv execData execData'}, kt ≠ keyType →
    parseKeyInto pre ns executorID key kt kv execData = .ok (some execData') → field execData' = field execData

variable {α : Type} {keyType : ExecutorKeyType} {field : ParsedExecutorData F → α}
  {decode : KeyValue (Value F) → α}

/-- A field of an executor is what its key holds. -/
theorem FieldOf.of_mem (hfield : FieldOf keyType field decode) {kvs : List (String × KeyValue (Value F))}
    (hnodup : (kvs.map Prod.fst).Nodup) {data : Map String (ParsedExecutorData F)}
    (h : parseExecutorKVs pre ns kvs = .ok data) {executorID : String} (hid : SlashFree executorID) :
    (∀ kv, (buildExecutorKey pre ns executorID keyType, kv) ∈ kvs →
      executorID ∈ data ∧ field ((data.lookup executorID).getD newParsedExecutorData) = decode kv) ∧
    ((∀ kv, (buildExecutorKey pre ns executorID keyType, kv) ∉ kvs) →
      field ((data.lookup executorID).getD newParsedExecutorData) = field newParsedExecutorData) := by
  have hparsed : parseExecutorKey pre ns (buildExecutorKey pre ns executorID keyType) = .ok (executorID, keyType) :=
    parseExecutorKey_buildExecutorKey hid hfield.known
  refine foldlM_ok_induction (fun seen acc =>
    (∀ kv, (buildExecutorKey pre ns executorID keyType, kv) ∈ seen →
      executorID ∈ acc ∧ field ((acc.lookup executorID).getD newParsedExecutorData) = decode kv) ∧
    ((∀ kv, (buildExecutorKey pre ns executorID keyType, kv) ∉ seen) →
      field ((acc.lookup executorID).getD newParsedExecutorData) = field newParsedExecutorData)) ?_ ?_ h
  · exact ⟨fun kv hmem => absurd hmem List.not_mem_nil, fun _ => rfl⟩
  · rintro seen entry rest acc acc' hkvs ⟨hset, hunset⟩ hstep
    obtain ⟨e, kt, hkey, result, hinto, rfl⟩ := parseExecutorKV_ok hstep
    by_cases hentry : entry.1 = buildExecutorKey pre ns executorID keyType
    · rw [hentry, hparsed, Except.ok.injEq, Prod.mk.injEq] at hkey
      obtain ⟨rfl, rfl⟩ := hkey
      obtain ⟨execData, rfl, hvalue⟩ := hfield.set hinto
      refine ⟨fun kv hmem => ⟨(AList.mem_insert _).mpr (.inl rfl), ?_⟩, fun hnone => ?_⟩
      · -- The key occurs once, so the entry just read is the one in question.
        have hkv : kv = entry.2 := by
          rcases List.mem_append.mp hmem with hseen | hlast
          · rw [← hentry] at hseen
            exact absurd hseen (not_mem_seen hnodup hkvs kv)
          · rw [← List.mem_singleton.mp hlast]
        rw [Option.map_some, Option.getD_some, Map.lookup_insert_eq, if_pos rfl, Option.getD_some, hvalue, hkv]
      · refine absurd (List.mem_append_right _ ?_) (hnone entry.2)
        rw [← hentry]
        exact List.mem_singleton_self _
    · have hsame : field ((((result.map (acc.insert e)).getD acc).lookup executorID).getD newParsedExecutorData) =
          field ((acc.lookup executorID).getD newParsedExecutorData) := by
        cases result with
        | none => rfl
        | some execData =>
          rw [Option.map_some, Option.getD_some, Map.lookup_insert_eq]
          split
          · rename_i he
            subst he
            refine hfield.keep ?_ hinto
            rintro rfl
            rcases (parseExecutorKey_eq_ok hkey).2 with heq | ⟨hmeta, -⟩
            · exact hentry heq
            · exact hfield.single hmeta
          · rfl
      have hmem_iff : ∀ kv, (buildExecutorKey pre ns executorID keyType, kv) ∈ seen ++ [entry] ↔
          (buildExecutorKey pre ns executorID keyType, kv) ∈ seen := by
        intro kv
        rw [List.mem_append, List.mem_singleton]
        refine or_iff_left fun heq => hentry ?_
        rw [← heq]
      rw [hsame]
      refine ⟨fun kv hmem => ?_, fun hnone => hunset fun kv hmem => hnone kv ((hmem_iff kv).mpr hmem)⟩
      obtain ⟨hread, hvalue⟩ := hset kv ((hmem_iff kv).mp hmem)
      refine ⟨?_, hvalue⟩
      cases result with
      | none => exact hread
      | some execData => exact (AList.mem_insert _).mpr (.inr hread)

/-- A field is set by one type of keys if each of the known types says so. -/
theorem FieldOf.of_sets (known : keyType.Known) (single : keyType ≠ .metadata)
    (set : ∀ {pre ns executorID key kv execData execData'},
      Sets pre ns executorID key kv execData keyType execData' → field execData' = decode kv)
    (keep : ∀ {pre ns executorID key kv execData kt execData'}, kt ≠ keyType →
      Sets pre ns executorID key kv execData kt execData' → field execData' = field execData) :
    FieldOf keyType field decode where
  known := known
  single := single
  set := by
    intro pre ns executorID key kv execData result h
    rcases sets_of_parseKeyInto h with ⟨hunknown, -⟩ | ⟨execData', rfl, hsets⟩
    · exact absurd known hunknown
    · exact ⟨execData', rfl, set hsets⟩
  keep := by
    intro pre ns executorID key kt kv execData execData' hne h
    rcases sets_of_parseKeyInto h with ⟨-, hnone⟩ | ⟨_, hsome, hsets⟩
    · cases hnone
    · cases hsome
      exact keep hne hsets

theorem fieldOf_lastHeartbeat : FieldOf (F := F) .heartbeat (·.lastHeartbeat) (·.value.getTime) := by
  refine .of_sets trivial nofun (fun hsets => ?_) fun hne hsets => ?_
  · cases hsets with
    | heartbeat h => exact (congrArg Value.getTime h).symm
  · cases hsets <;> first | rfl | exact absurd rfl hne

theorem fieldOf_status : FieldOf (F := F) .status (·.status) (·.value.getStatus) := by
  refine .of_sets trivial nofun (fun hsets => ?_) fun hne hsets => ?_
  · cases hsets with
    | status h => exact (congrArg Value.getStatus h).symm
  · cases hsets <;> first | rfl | exact absurd rfl hne

theorem fieldOf_reportedShards : FieldOf (F := F) .reportedShards (·.reportedShards) (·.value.getReportedShards) := by
  refine .of_sets trivial nofun (fun hsets => ?_) fun hne hsets => ?_
  · cases hsets with
    | reportedShards h => exact (congrArg Value.getReportedShards h).symm
  · cases hsets <;> first | rfl | exact absurd rfl hne

theorem fieldOf_statistics : FieldOf (F := F) .shardStatistics (·.statistics) (·.value.getStatistics) := by
  refine .of_sets trivial nofun (fun hsets => ?_) fun hne hsets => ?_
  · cases hsets with
    | shardStatistics h => exact (congrArg Value.getStatistics h).symm
  · cases hsets <;> first | rfl | exact absurd rfl hne

theorem fieldOf_hostMetadata : FieldOf (F := F) .hostMetadata (·.hostMetadata) (·.value.getHostMetadata) := by
  refine .of_sets trivial nofun (fun hsets => ?_) fun hne hsets => ?_
  · cases hsets with
    | hostMetadata h => exact (congrArg Value.getHostMetadata h).symm
  · cases hsets <;> first | rfl | exact absurd rfl hne

theorem fieldOf_assignedState : FieldOf (F := F) .assignedState (·.assignedState) etcdtypes.getAssignedState := by
  refine .of_sets trivial nofun (fun hsets => ?_) fun hne hsets => ?_
  · cases hsets with
    | assignedState h => rw [etcdtypes.getAssignedState, h]
  · cases hsets <;> first | rfl | exact absurd rfl hne

end Field

/-- An executor is read if one of its known keys is there. -/
theorem mem_parsed_iff {kvs : List (String × KeyValue (Value F))} {data : Map String (ParsedExecutorData F)}
    (h : parseExecutorKVs pre ns kvs = .ok data) {executorID : String} :
    executorID ∈ data ↔ ∃ entry ∈ kvs, ∃ keyType, parseExecutorKey pre ns entry.1 = .ok (executorID, keyType) ∧
      keyType.Known := by
  refine foldlM_ok_induction (fun seen acc => executorID ∈ acc ↔
    ∃ entry ∈ seen, ∃ keyType, parseExecutorKey pre ns entry.1 = .ok (executorID, keyType) ∧ keyType.Known) ?_ ?_ h
  · exact ⟨fun hmem => absurd hmem (AList.notMem_empty _), fun ⟨_, hmem, _⟩ => absurd hmem List.not_mem_nil⟩
  · intro seen entry rest acc acc' _ hacc hstep
    obtain ⟨e, kt, hkey, result, hinto, rfl⟩ := parseExecutorKV_ok hstep
    simp only [List.mem_append, List.mem_singleton, or_and_right, exists_or, exists_eq_left]
    rw [← hacc]
    rcases sets_of_parseKeyInto hinto with ⟨hunknown, rfl⟩ | ⟨execData, rfl, hsets⟩
    · refine (or_iff_left ?_).symm
      rintro ⟨kt', hkey', hknown⟩
      rw [hkey, Except.ok.injEq, Prod.mk.injEq] at hkey'
      exact hunknown (hkey'.2 ▸ hknown)
    · have hknown : kt.Known := by
        cases hsets <;> trivial
      rw [Option.map_some, Option.getD_some, AList.mem_insert, or_comm]
      refine or_congr_right ⟨?_, ?_⟩
      · rintro rfl
        exact ⟨kt, hkey, hknown⟩
      · rintro ⟨kt', hkey', -⟩
        rw [hkey, Except.ok.injEq, Prod.mk.injEq] at hkey'
        exact hkey'.1.symm

end common

namespace executorstore

open etcdtypes (Value ParsedExecutorData Encoding)
open common

variable {F : Type}

/-- How `GetExecutorState` fails. -/
inductive ExecutorStateError where
  | executorNotFound
  | parse (message : String)
deriving DecidableEq, Repr

def ExecutorStateError.message : ExecutorStateError → String
  | .executorNotFound => "executor not found"
  | .parse message => message

/-- The stored state of one executor. -/
structure ExecutorState (F : Type) where
  heartbeat : Option (HeartbeatState F)
  assignment : Option AssignedState
  statistics : Map String (ShardStatistics F)

/-- The zero value, returned with an error. -/
instance : Inhabited (ExecutorState F) := ⟨⟨none, none, ∅⟩⟩

def executorStateFromParsed (executorData : ParsedExecutorData F) : ExecutorState F where
  heartbeat := some (heartbeatFromParsed executorData)
  assignment := executorData.assignedState
  statistics := executorData.statistics

/-- Reads the keys of a single executor. -/
def getExecutorState [Encoding F] (pre ns executorID : String) (s : Store (Value F)) :
    Except ExecutorStateError (ExecutorState F) :=
  let kvs := s.range (.withPrefix (buildExecutorIDPrefix pre ns executorID))
  if kvs.length = 0 then .error .executorNotFound
  else match parseExecutorKVs pre ns kvs with
    | .error message => .error (.parse message)
    | .ok parsedData =>
      match parsedData.lookup executorID with
      | none => .error .executorNotFound
      | some executorData => .ok (executorStateFromParsed executorData)

section Stored

variable (pre ns : String) (s : Store (Value F)) (executorID : String)

def lastHeartbeatAt : Time :=
  ((s.get (buildExecutorKey pre ns executorID .heartbeat)).map (·.value.getTime)).getD 0

def statusAt : types.ExecutorStatus :=
  ((s.get (buildExecutorKey pre ns executorID .status)).map (·.value.getStatus)).getD .invalid

def reportedShardsAt : Map String (Option (types.ShardStatusReport F)) :=
  ((s.get (buildExecutorKey pre ns executorID .reportedShards)).map (·.value.getReportedShards)).getD ∅

def statisticsAt : Map String (ShardStatistics F) :=
  ((s.get (buildExecutorKey pre ns executorID .shardStatistics)).map (·.value.getStatistics)).getD ∅

def hostMetadataAt : Option types.HostMetadata :=
  ((s.get (buildExecutorKey pre ns executorID .hostMetadata)).map (·.value.getHostMetadata)).getD none

def assignedStateAt : Option AssignedState :=
  ((s.get (buildExecutorKey pre ns executorID .assignedState)).map etcdtypes.getAssignedState).getD none

/-- The fields of an executor are those stored, its metadata apart. -/
structure Reads (data : ParsedExecutorData F) : Prop where
  lastHeartbeat : data.lastHeartbeat = lastHeartbeatAt pre ns s executorID
  status : data.status = statusAt pre ns s executorID
  reportedShards : data.reportedShards = reportedShardsAt pre ns s executorID
  statistics : data.statistics = statisticsAt pre ns s executorID
  hostMetadata : data.hostMetadata = hostMetadataAt pre ns s executorID
  assignedState : data.assignedState = assignedStateAt pre ns s executorID

end Stored

variable [Encoding F] {pre ns : String} {s : Store (Value F)}

/-- The entries of all executors, as `GetState` reads them. -/
abbrev executorEntries (pre ns : String) (s : Store (Value F)) : List (String × KeyValue (Value F)) :=
  s.range (.withPrefix (buildExecutorsPrefix pre ns))

omit [Encoding F] in
theorem mem_executorEntries_iff {key : String} {kv : KeyValue (Value F)} :
    (key, kv) ∈ executorEntries pre ns s ↔ hasPrefix key (buildExecutorsPrefix pre ns) = true ∧ s.get key = some kv :=
  Store.mem_range_iff

omit [Encoding F] in
theorem executorKey_mem_entries_iff {executorID : String} {kt : ExecutorKeyType} {kv : KeyValue (Value F)} :
    (buildExecutorKey pre ns executorID kt, kv) ∈ executorEntries pre ns s ↔
      s.get (buildExecutorKey pre ns executorID kt) = some kv := by
  rw [mem_executorEntries_iff]
  refine and_iff_right ?_
  exact hasPrefix_executorsPrefix_key _ _

section Range

variable {range : Range} {data : Map String (ParsedExecutorData F)} {executorID : String}

theorem field_of_parse {α : Type} {kt : ExecutorKeyType} {field : ParsedExecutorData F → α}
    {decode : KeyValue (Value F) → α} (hfield : FieldOf kt field decode)
    (hrange : range.contains (buildExecutorKey pre ns executorID kt) = true)
    (h : parseExecutorKVs pre ns (s.range range) = .ok data) (hid : SlashFree executorID) :
    field ((data.lookup executorID).getD newParsedExecutorData) =
      ((s.get (buildExecutorKey pre ns executorID kt)).map decode).getD (field newParsedExecutorData) := by
  obtain ⟨hset, hunset⟩ := hfield.of_mem (s.nodup_keys_range _) h hid
  cases hget : s.get (buildExecutorKey pre ns executorID kt) with
  | none =>
    refine hunset fun kv hmem => ?_
    rw [(Store.mem_range_iff.mp hmem).2] at hget
    cases hget
  | some kv => exact (hset kv (Store.mem_range_iff.mpr ⟨hrange, hget⟩)).2

/-- A read of a range with all keys of an executor returns its fields. -/
theorem reads_of_parse (hrange : ∀ kt, range.contains (buildExecutorKey pre ns executorID kt) = true)
    (h : parseExecutorKVs pre ns (s.range range) = .ok data) (hid : SlashFree executorID) :
    Reads pre ns s executorID ((data.lookup executorID).getD newParsedExecutorData) where
  lastHeartbeat := field_of_parse fieldOf_lastHeartbeat (hrange _) h hid
  status := field_of_parse fieldOf_status (hrange _) h hid
  reportedShards := field_of_parse fieldOf_reportedShards (hrange _) h hid
  statistics := field_of_parse fieldOf_statistics (hrange _) h hid
  hostMetadata := field_of_parse fieldOf_hostMetadata (hrange _) h hid
  assignedState := field_of_parse fieldOf_assignedState (hrange _) h hid

end Range

omit [Encoding F] in
theorem contains_executorKey (executorID : String) (kt : ExecutorKeyType) :
    (Range.withPrefix (buildExecutorsPrefix pre ns)).contains (buildExecutorKey pre ns executorID kt) = true := by
  exact hasPrefix_executorsPrefix_key _ _

/-- What `GetExecutorState` returns was parsed from the keys of the executor. -/
theorem parsed_of_getExecutorState {executorID : String} {state : ExecutorState F}
    (h : getExecutorState pre ns executorID s = .ok state) : ∃ parsedData executorData,
      parseExecutorKVs pre ns (s.range (.withPrefix (buildExecutorIDPrefix pre ns executorID))) = .ok parsedData ∧
      parsedData.lookup executorID = some executorData ∧ state = executorStateFromParsed executorData := by
  unfold getExecutorState at h
  dsimp only at h
  split at h
  · cases h
  · split at h
    · cases h
    · rename_i parsedData hparse
      split at h
      · cases h
      · rename_i executorData hlookup
        cases h
        exact ⟨parsedData, executorData, hparse, hlookup, rfl⟩

/-- What `GetExecutorState` returns is what is stored. -/
theorem getExecutorState_eq_ok {executorID : String} {state : ExecutorState F}
    (h : getExecutorState pre ns executorID s = .ok state) :
    SlashFree executorID ∧ ∃ executorData, state = executorStateFromParsed executorData ∧
      Reads pre ns s executorID executorData := by
  obtain ⟨parsedData, executorData, hparse, hlookup, hstate⟩ := parsed_of_getExecutorState h
  have hid : SlashFree executorID := slashFree_of_mem_parsed hparse (Map.mem_iff_exists_lookup.mpr ⟨_, hlookup⟩)
  have hrange : ∀ kt, (Range.withPrefix (buildExecutorIDPrefix pre ns executorID)).contains
      (buildExecutorKey pre ns executorID kt) = true := fun kt => hasPrefix_append _ _
  have hreads := reads_of_parse hrange hparse hid
  rw [hlookup] at hreads
  exact ⟨hid, executorData, hstate, hreads⟩

/-- What is stored of an executor, as every read of it returns it. -/
abbrev storedExecutor (pre ns : String) (s : Store (Value F)) (executorID : String) : Option (ParsedExecutorData F) :=
  executorOf pre ns executorID (executorEntries pre ns s)

theorem getState_isOk_iff {order : RangeOrder} :
    (∃ state, getState pre ns order s = .ok state) ↔ ∀ entry ∈ executorEntries pre ns s, Decodes pre ns entry := by
  rw [← parseExecutorKVs_isOk_iff]
  constructor
  · rintro ⟨state, h⟩
    obtain ⟨data, hparse, -⟩ := bind_eq_ok_iff.mp h
    exact ⟨data, hparse⟩
  · rintro ⟨data, hparse⟩
    exact ⟨_, bind_eq_ok_iff.mpr ⟨data, hparse, rfl⟩⟩

/-- A namespace that can be read in full can be read by spectators. -/
theorem getAssignmentState_isOk (h : ∀ entry ∈ executorEntries pre ns s, Decodes pre ns entry) :
    ∃ state, getAssignmentState pre ns s = .ok state := by
  obtain ⟨data, hparse⟩ := parseExecutorKVs_isOk_iff.mpr h
  obtain ⟨result, hresult, -⟩ := parseExecutorAssignmentKVs_of_parseExecutorKVs hparse
  exact ⟨_, bind_eq_ok_iff.mpr ⟨result, hresult, rfl⟩⟩

/-- The entries of an executor in a snapshot of the namespace. -/
theorem getState_entry {order : RangeOrder} {state : NamespaceState F} (h : getState pre ns order s = .ok state)
    (executorID : String) :
    state.executors.lookup executorID = (storedExecutor pre ns s executorID).map heartbeatFromParsed ∧
      state.executorMetadata.lookup executorID = (storedExecutor pre ns s executorID).map (·.metadata) ∧
      state.shardAssignments.lookup executorID = (storedExecutor pre ns s executorID).bind (·.assignedState) := by
  obtain ⟨data, hparse, hstate⟩ := bind_eq_ok_iff.mp h
  cases hstate
  rw [storedExecutor, ← lookup_parseExecutorKVs hparse]
  refine ⟨?_, ?_, Map.lookup_filterMapValues ..⟩
  · rw [Map.lookup_filterMapValues]
    cases data.lookup executorID <;> rfl
  · rw [Map.lookup_filterMapValues]
    cases data.lookup executorID <;> rfl

/-- What a snapshot says about an executor is what is stored. -/
theorem reads_of_getState {order : RangeOrder} {state : NamespaceState F} (h : getState pre ns order s = .ok state)
    {executorID : String} {executorData : ParsedExecutorData F}
    (hstored : storedExecutor pre ns s executorID = some executorData) : Reads pre ns s executorID executorData := by
  obtain ⟨data, hparse, -⟩ := bind_eq_ok_iff.mp h
  rw [storedExecutor, ← lookup_parseExecutorKVs hparse] at hstored
  have hid := slashFree_of_mem_parsed hparse (Map.mem_iff_exists_lookup.mpr ⟨_, hstored⟩)
  have hreads := reads_of_parse (contains_executorKey executorID) hparse hid
  rwa [hstored] at hreads

omit [Encoding F] in
theorem hasPrefix_of_isOf {executorID key : String} (h : isOf pre ns executorID key = true) :
    hasPrefix key (buildExecutorIDPrefix pre ns executorID) = true ∧
      hasPrefix key (buildExecutorsPrefix pre ns) = true := by
  unfold isOf at h
  cases hkey : parseExecutorKey pre ns key with
  | error reason =>
    rw [hkey] at h
    cases h
  | ok parsed =>
    obtain ⟨e, kt⟩ := parsed
    rw [hkey] at h
    obtain rfl := of_decide_eq_true h
    rcases (parseExecutorKey_eq_ok hkey).2 with rfl | ⟨-, name, rfl⟩
    · refine ⟨hasPrefix_append _ _, ?_⟩
      exact hasPrefix_executorsPrefix_key _ _
    · have hmetadata : buildMetadataKey pre ns e name =
          buildExecutorIDPrefix pre ns e ++ ("metadata" ++ "/" ++ name) := by
        simp [buildMetadataKey, buildExecutorKey, ExecutorKeyType.name, String.append_assoc]
      refine ⟨?_, ?_⟩
      · rw [hmetadata]
        exact hasPrefix_append _ _
      · rw [hasPrefix_iff, toList_buildMetadataKey]
        exact List.prefix_append _ _

omit [Encoding F] in
/-- A key that parses lies under its executor, and is not the version key. -/
theorem hasPrefix_of_parse {executorID key : String} {kt : ExecutorKeyType}
    (h : parseExecutorKey pre ns key = .ok (executorID, kt)) :
    hasPrefix key (buildExecutorIDPrefix pre ns executorID) = true ∧
      hasPrefix key (buildExecutorsPrefix pre ns) = true ∧ key ≠ buildAssignmentVersionKey pre ns := by
  have hof : isOf pre ns executorID key = true := by
    rw [isOf, h]
    exact decide_eq_true rfl
  obtain ⟨hid, hexecutors⟩ := hasPrefix_of_isOf hof
  exact ⟨hid, hexecutors, assignmentVersionKey_ne_of_dir "executors/" (by decide) hexecutors⟩

/-- A snapshot has the executors with at least one known key. -/
theorem mem_executors_iff {order : RangeOrder} {state : NamespaceState F} (h : getState pre ns order s = .ok state)
    {executorID : String} : executorID ∈ state.executors ↔
      ∃ key kt, parseExecutorKey pre ns key = .ok (executorID, kt) ∧ kt.Known ∧ s.get key ≠ none := by
  obtain ⟨data, hparse, hstate⟩ := bind_eq_ok_iff.mp h
  cases hstate
  have hmem : executorID ∈ data.filterMapValues (fun executorData => some (heartbeatFromParsed executorData)) ↔
      executorID ∈ data := by
    rw [Map.mem_iff_exists_lookup, Map.mem_iff_exists_lookup, Map.lookup_filterMapValues]
    cases data.lookup executorID <;> simp
  refine hmem.trans ((mem_parsed_iff hparse).trans ?_)
  constructor
  · rintro ⟨⟨key, kv⟩, hentry, kt, hkey, hknown⟩
    exact ⟨key, kt, hkey, hknown, by rw [(mem_executorEntries_iff.mp hentry).2]; simp⟩
  · rintro ⟨key, kt, hkey, hknown, hget⟩
    obtain ⟨kv, hkv⟩ := Option.ne_none_iff_exists'.mp hget
    refine ⟨(key, kv), mem_executorEntries_iff.mpr ⟨?_, hkv⟩, kt, hkey, hknown⟩
    exact (hasPrefix_of_parse hkey).2.1

theorem mem_drainedHosts_iff {order : RangeOrder} {state : NamespaceState F} (h : getState pre ns order s = .ok state)
    {host : String} : host ∈ state.drainedHosts ↔
      hostname.validate host = .ok () ∧ ∃ kv, s.get (buildDrainedHostKey pre ns host) = some kv := by
  obtain ⟨data, -, hstate⟩ := bind_eq_ok_iff.mp h
  cases hstate
  exact mem_parseDrainedHostKVs_range

/-- Nothing is stored of an executor without keys. -/
theorem storedExecutor_eq_none {executorID : String}
    (h : ∀ {key kt}, parseExecutorKey pre ns key = .ok (executorID, kt) → s.get key = none) :
    storedExecutor pre ns s executorID = none := by
  have hnil : (executorEntries pre ns s).filter (fun entry => isOf pre ns executorID entry.1) = [] := by
    rw [List.filter_eq_nil_iff]
    rintro ⟨key, kv⟩ hentry hof
    unfold isOf at hof
    cases hkey : parseExecutorKey pre ns key with
    | error reason => simp [hkey] at hof
    | ok parsed =>
      obtain ⟨e, kt⟩ := parsed
      simp only [hkey, decide_eq_true_eq] at hof
      subst hof
      have hnone := h hkey
      rw [(mem_executorEntries_iff.mp hentry).2] at hnone
      cases hnone
  rw [storedExecutor, executorOf, hnil]
  rfl

/-- The heartbeat in a snapshot is the one stored, its metadata apart. -/
theorem heartbeat_of_lookup {order : RangeOrder} {state : NamespaceState F} (h : getState pre ns order s = .ok state)
    {executorID : String} {heartbeat : HeartbeatState F} (hlookup : state.executors.lookup executorID = some heartbeat) :
    heartbeat.lastHeartbeat = lastHeartbeatAt pre ns s executorID ∧
      heartbeat.status = statusAt pre ns s executorID ∧
      heartbeat.reportedShards = reportedShardsAt pre ns s executorID ∧
      heartbeat.hostMetadata = hostMetadataAt pre ns s executorID := by
  rw [(getState_entry h executorID).1] at hlookup
  obtain ⟨executorData, hstored, rfl⟩ := Option.map_eq_some_iff.mp hlookup
  have hreads := reads_of_getState h hstored
  exact ⟨hreads.lastHeartbeat, hreads.status, hreads.reportedShards, hreads.hostMetadata⟩

/-- One of its keys is enough for an executor to be read. -/
theorem exists_storedExecutor (h : ∀ entry ∈ executorEntries pre ns s, Decodes pre ns entry) {executorID : String}
    (hid : SlashFree executorID) {kt : ExecutorKeyType} (hkt : kt.Known) {kv : KeyValue (Value F)}
    (hget : s.get (buildExecutorKey pre ns executorID kt) = some kv) :
    ∃ executorData, storedExecutor pre ns s executorID = some executorData ∧
      Reads pre ns s executorID executorData := by
  obtain ⟨data, hparse⟩ := parseExecutorKVs_isOk_iff.mpr h
  have hmem : executorID ∈ data := (mem_parsed_iff hparse).mpr
    ⟨_, executorKey_mem_entries_iff.mpr hget, kt, parseExecutorKey_buildExecutorKey hid hkt, hkt⟩
  obtain ⟨executorData, hlookup⟩ := Map.mem_iff_exists_lookup.mp hmem
  refine ⟨executorData, ?_, ?_⟩
  · rw [storedExecutor, ← lookup_parseExecutorKVs hparse, hlookup]
  · have hreads := reads_of_parse (contains_executorKey executorID) hparse hid
    rwa [hlookup] at hreads

section Writes

variable [DecidableEq F] {ops : List (Op (Value F))} {s' : Store (Value F)}

/-- The keys of one executor, and the assignment version. -/
def ExecutorOwns (pre ns executorID key : String) : Prop :=
  hasPrefix key (buildExecutorIDPrefix pre ns executorID) = true ∨ key = buildAssignmentVersionKey pre ns

omit [Encoding F] [DecidableEq F] in
/-- An executor has no key among those of another one. -/
theorem not_executorOwns_of_isOf {executorID other key : String} (hid : SlashFree executorID)
    (hne : other ≠ executorID) (h : isOf pre ns other key = true) : ¬ExecutorOwns pre ns executorID key := by
  obtain ⟨hother, hexecutors⟩ := hasPrefix_of_isOf h
  have hslash : SlashFree other := by
    unfold isOf at h
    cases hkey : parseExecutorKey pre ns key with
    | error reason =>
      rw [hkey] at h
      cases h
    | ok parsed =>
      rw [hkey] at h
      rw [← of_decide_eq_true h]
      exact (parseExecutorKey_eq_ok hkey).1
  rintro (hkey | hkey)
  · rw [← append_trimPrefix hother] at hkey
    exact hne ((hasPrefix_executorID_iff hslash hid).mp hkey).symm
  · exact assignmentVersionKey_ne_of_dir "executors/" (by decide) hexecutors hkey

/-- Writing elsewhere leaves an executor as it was. -/
theorem storedExecutor_of_applied {own : String → Prop} (h : Applied ops s s') (hops : ∀ op ∈ ops, op.Within own)
    {executorID : String} (hkeep : ∀ key, isOf pre ns executorID key = true → ¬own key) :
    storedExecutor pre ns s' executorID = storedExecutor pre ns s executorID := by
  unfold storedExecutor executorOf
  rw [h.filter_range hops hkeep]

omit [Encoding F] in
/-- A namespace stays readable if what is put in it can be read. -/
theorem decodes_of_applied (h : Applied ops s s')
    (hputs : ∀ key value, Op.put key value ∈ ops → hasPrefix key (buildExecutorsPrefix pre ns) = true →
      ∃ executorID kt, parseExecutorKey pre ns key = .ok (executorID, kt) ∧ fits kt value = true)
    (hs : ∀ entry ∈ executorEntries pre ns s, Decodes pre ns entry) :
    ∀ entry ∈ executorEntries pre ns s', Decodes pre ns entry := by
  rintro ⟨key, kv⟩ hentry
  obtain ⟨hkey, hget⟩ := mem_executorEntries_iff.mp hentry
  rcases h.get_cases key with ⟨value, hput, hget'⟩ | hget' | hget' <;> rw [hget'] at hget
  · cases hget
    exact hputs key value hput hkey
  · cases hget
  · exact hs _ (mem_executorEntries_iff.mpr ⟨hkey, hget⟩)

end Writes

end executorstore
