import ShardManager.ExecutorStore.Entries
import ShardManager.ExecutorStore.Version
import ShardManager.ExecutorStore.WriteOps

open golang etcd etcdkeys store common

namespace executorstore

open etcdtypes (Value Encoding)

variable {F : Type} {pre ns executorID : String} {s s' : Store (Value F)}

section Frame

/-- What is written besides the metadata of one executor. -/
inductive KeepsMetadata (pre ns executorID : String) : Op (Value F) → Prop where
  | hidden {op : Op (Value F)} (h : Hidden pre ns op) : KeepsMetadata pre ns executorID op
  | record {other : String} (hid : SlashFree other) (record : etcdtypes.AssignedState) :
      KeepsMetadata pre ns executorID (.put (assignedStateKey pre ns other) (.assignedState record))
  | metadata {other : String} (hid : SlashFree other) (hne : other ≠ executorID) (name text : String) :
      KeepsMetadata pre ns executorID (.put (buildMetadataKey pre ns other name) (.text text))
  | drainedShard (shardID : String) :
      KeepsMetadata pre ns executorID (.put (buildDrainedShardKey pre ns shardID) (.text ""))
  | undrainedShard (shardID : String) :
      KeepsMetadata pre ns executorID (.delete (.key (buildDrainedShardKey pre ns shardID)))
  | executor {other : String} (hid : SlashFree other) (hne : other ≠ executorID) :
      KeepsMetadata pre ns executorID (deletion pre ns other)
  | version : KeepsMetadata pre ns executorID (touchAssignmentVersion pre ns)

theorem buildDrainedShardKey_ne_buildMetadataKey (shardID executorID name : String) :
    buildDrainedShardKey pre ns shardID ≠ buildMetadataKey pre ns executorID name :=
  ne_of_dirs (by decide) (by decide) (hasPrefix_append _ _) (buildMetadataKey_dir executorID name)

theorem KeepsMetadata.not_put (hid : SlashFree executorID) {name : String} {value : Value F} :
    ¬KeepsMetadata pre ns executorID (.put (buildMetadataKey pre ns executorID name) value) := by
  generalize hop : Op.put (buildMetadataKey pre ns executorID name) value = op
  intro h
  cases h with
  | hidden h =>
    subst hop
    exact h.not_put (.metadata hid name)
  | record hother record =>
    exact buildExecutorKey_ne_buildMetadataKey hother ExecutorKeyType.known_assignedState executorID name
      (Op.put.inj hop).1.symm
  | metadata hother hne name' text => exact hne (buildMetadataKey_inj hid hother (Op.put.inj hop).1).1.symm
  | drainedShard shardID => exact buildDrainedShardKey_ne_buildMetadataKey shardID executorID name (Op.put.inj hop).1.symm
  | version =>
    exact assignmentVersionKey_ne_of_dir "executors/" (by decide) (buildMetadataKey_dir executorID name)
      (Op.put.inj hop).1
  | undrainedShard => cases hop
  | executor => cases hop

theorem KeepsMetadata.not_deleted (hid : SlashFree executorID) {range : Range}
    (h : KeepsMetadata (F := F) pre ns executorID (.delete range)) (name : String) :
    range.contains (buildMetadataKey pre ns executorID name) = false := by
  generalize hop : Op.delete range = op at h
  cases h with
  | hidden h =>
    subst hop
    exact h.not_deleted (.metadata hid name)
  | undrainedShard shardID =>
    cases hop
    exact decide_eq_false (buildDrainedShardKey_ne_buildMetadataKey shardID executorID name).symm
  | executor hother hne =>
    cases hop
    exact Bool.eq_false_iff.mpr fun hprefix => hne ((hasPrefix_buildMetadataKey_iff hid hother).mp hprefix)
  | record => cases hop
  | metadata => cases hop
  | drainedShard => cases hop
  | version => cases hop

theorem get_metadata_of_keeps [DecidableEq F] (hid : SlashFree executorID) {ops : List (Op (Value F))}
    (hops : ∀ op ∈ ops, KeepsMetadata pre ns executorID op) (happlied : Applied ops s s') (name : String) :
    s'.get (buildMetadataKey pre ns executorID name) = s.get (buildMetadataKey pre ns executorID name) := by
  exact happlied.get_of_spared (fun _ hput => KeepsMetadata.not_put hid (hops _ hput))
    fun _ hdelete => (hops _ hdelete).not_deleted hid name

end Frame

section Others

/-- Neither a heartbeat nor a deletion of the executor. -/
def Write.Leaves (pre ns executorID : String) (w : Writers F) : Write F → Prop
  | .recordHeartbeat _ other _ _ => other ≠ executorID
  | .assignShards _ request _ _ => executorID ∉ request.executorsToDelete
  | .resetNamespace _ => False
  | .commitBatch i _ => ∀ call ∈ w.calls[i]?, deletion pre ns executorID ∉ call.batch.getD [] ++ call.extraOps
  | _ => True

/-- What the calls in progress may commit: the executor is deleted at most as
a whole. -/
def KeepsOrDeletes (pre ns executorID : String) (op : Op (Value F)) : Prop :=
  KeepsMetadata pre ns executorID op ∨ op = deletion pre ns executorID

theorem keeps_of_executes {w : Writers F} {label : Write F} (hids : label.SlashFreeIDs)
    (hleaves : label.Leaves pre ns executorID w) {op : Op (Value F)} (h : label.Executes pre ns op) :
    KeepsMetadata pre ns executorID op ∨ label.batched = true ∧ op = deletion pre ns executorID := by
  cases label with
  | recordHeartbeat order other request fate =>
    rcases h with rfl | ⟨reportedShards, hop⟩
    · exact .inl .version
    · rcases hidden_or_metadata_of_mem_heartbeatOps hids hop with hhidden | ⟨name, text, -, rfl⟩
      · exact .inl (.hidden hhidden)
      · exact .inl (.metadata hids hleaves name text)
  | assignShards order request guard fate =>
    rcases h with rfl | ⟨other, hmem, record, rfl⟩ | ⟨other, hmem, rfl⟩
    · exact .inl .version
    · exact .inl (.record (hids.1 other hmem) record)
    · refine .inl (.executor (hids.2 other hmem) ?_)
      rintro rfl
      exact hleaves hmem
  | recordShardStatistics other assignmentModRevision statistics fate =>
    obtain ⟨payload, rfl⟩ := h
    exact .inl (.hidden (hidden_statistics hids payload))
  | recordShardStatisticsUpdate other statistics fate =>
    rcases h with rfl | ⟨payload, rfl⟩
    · exact .inl (.hidden (.statistics hids))
    · exact .inl (.hidden (hidden_statistics hids payload))
  | resetNamespace fate => exact hleaves.elim
  | deleteExecutors maxEtcdTxnOps executorIDs guard =>
    rcases h with rfl | ⟨other, hmem, rfl⟩
    · exact .inl .version
    · by_cases heq : other = executorID
      · exact .inr ⟨rfl, by rw [heq]⟩
      · exact .inl (.executor (hids other hmem) heq)
  | deleteShardStats order maxEtcdTxnOps shardIDs guard =>
    obtain ⟨other, hother, rfl | ⟨payload, rfl⟩⟩ := h
    · exact .inl (.hidden (.statistics hother))
    · exact .inl (.hidden (hidden_statistics hother payload))
  | drainShards maxEtcdTxnOps shardIDs =>
    rcases h with rfl | ⟨shardID, -, rfl⟩
    · exact .inl .version
    · exact .inl (.drainedShard shardID)
  | undrainShards maxEtcdTxnOps shardIDs =>
    rcases h with rfl | ⟨shardID, -, rfl⟩
    · exact .inl .version
    · exact .inl (.undrainedShard shardID)
  | drainHosts order maxEtcdTxnOps hosts now =>
    obtain ⟨hostname, host, rfl⟩ := h
    exact .inl (.hidden (.drainedHost hostname host))
  | undrainHosts maxEtcdTxnOps hostnames =>
    obtain ⟨hostname, -, rfl⟩ := h
    exact .inl (.hidden (.undrainedHost hostname))
  | commitBatch i fate => cases h

variable [DecidableEq F]

/-- The store after a transaction of such operations, or the same store, has
the same metadata. -/
theorem metadata_of_transacts (hid : SlashFree executorID) (h : Transacts (KeepsMetadata pre ns executorID) s s')
    (name : String) :
    s'.get (buildMetadataKey pre ns executorID name) = s.get (buildMetadataKey pre ns executorID name) := by
  rcases h with rfl | ⟨ops, hops, happlied⟩
  · rfl
  · exact get_metadata_of_keeps hid hops happlied name

theorem commitBatch_keeps {call : CommitOps (Value F)}
    (hops : ∀ op ∈ call.ops ++ call.extraOps, KeepsOrDeletes pre ns executorID op)
    (hnot : deletion pre ns executorID ∉ call.batch.getD [] ++ call.extraOps) {fate : Fate} {progress : Progress (Value F)}
    (h : call.commitBatch fate s = (progress, s')) : Transacts (KeepsMetadata pre ns executorID) s s' := by
  rcases CommitOps.commitBatch_cases h with ⟨hsame, -⟩ | ⟨-, batch, -, hbatch, -, happlied, -⟩
  · exact .inl hsame
  · rw [hbatch, Option.getD_some] at hnot
    refine .inr ⟨_, fun op hop => ?_, happlied⟩
    have hcalls : op ∈ call.ops ++ call.extraOps :=
      List.mem_append.mpr ((List.mem_append.mp hop).imp_left fun h => CommitOps.mem_of_mem_batch hbatch h)
    exact (hops op hcalls).resolve_right fun h => hnot (h ▸ hop)

/-- An operation that leaves the executor alone keeps its metadata. -/
theorem metadata_of_write [Float64 F] [Encoding F] (hid : SlashFree executorID) {w w' : Writers F} {label : Write F}
    (hcalls : w.Commits (KeepsOrDeletes pre ns executorID)) (hids : label.SlashFreeIDs)
    (hleaves : label.Leaves pre ns executorID w) (h : write pre ns label w = some w') :
    (∀ name, w'.store.get (buildMetadataKey pre ns executorID name) =
        w.store.get (buildMetadataKey pre ns executorID name)) ∧
      w'.Commits (KeepsOrDeletes pre ns executorID) := by
  have hexecutes : ∀ op, label.Executes pre ns op → _ := fun op => keeps_of_executes hids hleaves
  refine ⟨?_, (write_executes hcalls (fun op hop => (hexecutes op hop).imp_right And.right) h).2⟩
  rcases write_cases h with (⟨hbatched, htransacts, -⟩ | ⟨hstore, -⟩) | ⟨i, fate, call, rfl, hcall, hadvances⟩
  · refine metadata_of_transacts hid (htransacts.mono fun op hop => (hexecutes op hop).resolve_right ?_)
    rw [hbatched]
    rintro ⟨⟨⟩, -⟩
  · exact fun name => by rw [hstore]
  · have hkeeps : ∀ {progress s'}, call.commitBatch fate w.store = (progress, s') →
        Transacts (KeepsMetadata pre ns executorID) w.store s' :=
      commitBatch_keeps (hcalls call (List.mem_of_getElem? hcall)) (hleaves call hcall)
    rcases hadvances with ⟨call', hcommit, -⟩ | ⟨result, hcommit, -⟩
    · exact metadata_of_transacts hid (hkeeps hcommit)
    · exact metadata_of_transacts hid (hkeeps hcommit)

end Others

section Heartbeats

/-- What is stored as a metadata value of the executor. -/
def metadataText [Encoding F] (pre ns executorID : String) (s : Store (Value F)) (name : String) : Option String :=
  (s.get (buildMetadataKey pre ns executorID name)).map fun kv => Encoding.bytes kv.value

theorem put_mem_heartbeatOps_of_metadata {order : RangeOrder} {request : HeartbeatState F} {reportedShards : Value F}
    {name text : String} (h : request.metadata.lookup name = some text) :
    Op.put (buildMetadataKey pre ns executorID name) (.text text) ∈
      heartbeatOps pre ns order executorID request reportedShards := by
  refine List.mem_append_left _ (List.mem_append_right _ (List.mem_map.mpr ⟨(name, text), ?_, rfl⟩))
  exact RangeOrder.mem_range_iff.mpr h

variable [DecidableEq F] [Float64 F] [Encoding F]

/-- A heartbeat writes the entries of its metadata and leaves the others. -/
theorem metadataText_recordHeartbeat (hid : SlashFree executorID) {order : RangeOrder} {request : HeartbeatState F}
    {fate : Fate} (h : recordHeartbeat pre ns order executorID request fate s = (.ok (), s')) (name : String) :
    metadataText pre ns executorID s' name =
      (request.metadata.lookup name).or (metadataText pre ns executorID s name) := by
  rcases recordHeartbeat_cases h with ⟨-, e, hfailed⟩ | ⟨reportedShards, -, happlied⟩
  · cases hfailed
  cases hlookup : request.metadata.lookup name with
  | some text =>
    have hput : Op.put (buildMetadataKey pre ns executorID name) (.text text) ∈
        if cmpsHold s (metadataUnchanged pre ns order executorID request)
        then heartbeatOps pre ns order executorID request reportedShards
        else heartbeatOps pre ns order executorID request reportedShards ++ [touchAssignmentVersion pre ns] := by
      split
      · exact put_mem_heartbeatOps_of_metadata hlookup
      · exact List.mem_append_left _ (put_mem_heartbeatOps_of_metadata hlookup)
    rw [metadataText, happlied.get_of_put hput, Option.map_some, Encoding.bytes_text]
    rfl
  | none =>
    have hsame : s'.get (buildMetadataKey pre ns executorID name) = s.get (buildMetadataKey pre ns executorID name) := by
      refine get_of_heartbeat happlied
        (assignmentVersionKey_ne_of_dir "executors/" (by decide) (buildMetadataKey_dir executorID name)) fun value hop => ?_
      rcases hidden_or_metadata_of_mem_heartbeatOps hid hop with hhidden | ⟨name', text, hsome, heq⟩
      · exact hhidden.not_put (.metadata hid name)
      · obtain ⟨-, rfl⟩ := buildMetadataKey_inj hid hid (Op.put.inj heq).1
        rw [hlookup] at hsome
        cases hsome
    rw [metadataText, hsame]
    rfl

/-- Heartbeats of an executor with the metadata they sent, and in between
operations that neither are heartbeats of it nor delete it. -/
inductive Heartbeats (pre ns executorID : String) : Writers F → List (Map String String) → Writers F → Prop where
  | start (w : Writers F) : Heartbeats pre ns executorID w [] w
  | heartbeat {w w' : Writers F} {sent : List (Map String String)} {order : RangeOrder} {request : HeartbeatState F}
      {fate : Fate} {s : Store (Value F)} : Heartbeats pre ns executorID w sent w' →
      recordHeartbeat pre ns order executorID request fate w'.store = (.ok (), s) →
      Heartbeats pre ns executorID w (sent ++ [request.metadata]) { w' with store := s }
  | other {w w' w'' : Writers F} {sent : List (Map String String)} {label : Write F} :
      Heartbeats pre ns executorID w sent w' → label.SlashFreeIDs → label.Leaves pre ns executorID w' →
      write pre ns label w' = some w'' → Heartbeats pre ns executorID w sent w''

/-- Nothing but operations of the namespace is in progress, and no key sits at
the directory name of an executor's metadata. -/
structure Ready (pre ns executorID : String) (w : Writers F) : Prop where
  sound : w.Sound pre ns
  calls : w.Commits (KeepsOrDeletes pre ns executorID)
  bare : NoBareKeys pre ns w.store

/-- After a run of heartbeats each entry is the one last sent, or was there
from the start. -/
theorem Heartbeats.stored (hid : SlashFree executorID) {w w' : Writers F} {sent : List (Map String String)}
    (h : Heartbeats pre ns executorID w sent w') (hready : Ready pre ns executorID w) :
    Ready pre ns executorID w' ∧ ∀ name, metadataText pre ns executorID w'.store name =
      sent.foldl (fun text metadata => (metadata.lookup name).or text)
        (metadataText pre ns executorID w.store name) := by
  induction h with
  | start => exact ⟨hready, fun _ => rfl⟩
  | @heartbeat w' sent order request fate s hrun hbeat ih =>
    obtain ⟨hready', hstored⟩ := ih
    have hwritten : Written pre ns w'.store (recordHeartbeat pre ns order executorID request fate w'.store).2 :=
      recordHeartbeat_written order hid request fate w'.store
    rw [hbeat] at hwritten
    refine ⟨⟨hready'.sound, hready'.calls, noBareKeys_of_written hwritten hready'.bare⟩, fun name => ?_⟩
    rw [metadataText_recordHeartbeat hid hbeat, hstored, List.foldl_append]
    rfl
  | other hrun hids hleaves hwrite ih =>
    obtain ⟨hready', hstored⟩ := ih
    obtain ⟨hwritten, hsound⟩ := write_written hready'.sound hids hwrite
    obtain ⟨hsame, hcalls⟩ := metadata_of_write hid hready'.calls hids hleaves hwrite
    refine ⟨⟨hsound, hcalls, noBareKeys_of_written hwritten hready'.bare⟩, fun name => ?_⟩
    rw [metadataText, hsame, ← hstored]
    rfl

/-- The entries an executor was sent or had are all in its last heartbeat. -/
def NothingDropped (pre ns executorID : String) (s : Store (Value F)) (earlier : List (Map String String))
    (last : Map String String) : Prop :=
  ∀ name, (s.get (buildMetadataKey pre ns executorID name) ≠ none ∨ ∃ metadata ∈ earlier, name ∈ metadata) → name ∈ last

theorem foldl_or_eq_none_iff {name : String} {earlier : List (Map String String)} {text : Option String} :
    earlier.foldl (fun text metadata => (metadata.lookup name).or text) text = none ↔
      text = none ∧ ∀ metadata ∈ earlier, name ∉ metadata := by
  induction earlier generalizing text with
  | nil => simp
  | cons metadata rest ih =>
    rw [List.foldl_cons, ih, Option.or_eq_none_iff, AList.lookup_eq_none, List.forall_mem_cons]
    tauto

end Heartbeats

section Reads

variable [Encoding F]

/-- The metadata of an executor, as one of the reads returns it. An executor that
is missing in a map has none. -/
inductive Returned (pre ns executorID : String) (s : Store (Value F)) : Map String String → Prop where
  | getExecutorState {state : ExecutorState F} {heartbeat : HeartbeatState F} :
      getExecutorState pre ns executorID s = .ok state → state.heartbeat = some heartbeat →
      Returned pre ns executorID s heartbeat.metadata
  | getState {order : RangeOrder} {state : NamespaceState F} :
      getState pre ns order s = .ok state →
      Returned pre ns executorID s (((state.executors.lookup executorID).map (·.metadata)).getD ∅)
  | getState_executorMetadata {order : RangeOrder} {state : NamespaceState F} :
      getState pre ns order s = .ok state →
      Returned pre ns executorID s (metadataOf state.executorMetadata executorID)
  | getAssignmentState {state : AssignmentState} :
      getAssignmentState pre ns s = .ok state →
      Returned pre ns executorID s (metadataOf state.executorMetadata executorID)

theorem metadataAt_iff_metadataText (hid : SlashFree executorID) {name value : String} :
    MetadataAt pre ns s executorID name value ↔ metadataText pre ns executorID s name = some value := by
  rw [metadataText, Option.map_eq_some_iff]
  exact and_iff_right hid

theorem lookup_of_describes (hid : SlashFree executorID) (hbare : NoBareKeys pre ns s) {state : AssignmentState}
    (hdescribes : Describes pre ns s state) (name : String) :
    (metadataOf state.executorMetadata executorID).lookup name = metadataText pre ns executorID s name := by
  refine Option.ext fun value => ?_
  rw [hdescribes.metadata hbare, metadataAt_iff_metadataText hid]

/-- The metadata that a read returns is what is stored. -/
theorem Returned.lookup (hid : SlashFree executorID) (hbare : NoBareKeys pre ns s) {metadata : Map String String}
    (h : Returned pre ns executorID s metadata) (name : String) :
    metadata.lookup name = metadataText pre ns executorID s name := by
  cases h with
  | getAssignmentState hread => exact lookup_of_describes hid hbare (getAssignmentState_describes hread).1 name
  | getState_executorMetadata hread => exact lookup_of_describes hid hbare (getState_describes hread).1 name
  | @getState order state hread =>
    obtain ⟨hexecutor, hmetadata, -⟩ := getState_entry hread executorID
    have heq : ((state.executors.lookup executorID).map (·.metadata)).getD ∅ =
        metadataOf state.executorMetadata executorID := by
      rw [metadataOf, hexecutor, hmetadata, Option.map_map]
      rfl
    rw [heq]
    exact lookup_of_describes hid hbare (getState_describes hread).1 name
  | getExecutorState hread hheartbeat =>
    obtain ⟨data, executorData, hparse, hdata, rfl⟩ := parsed_of_getExecutorState hread
    cases hheartbeat
    obtain ⟨result, hresult, hagree⟩ := parseExecutorAssignmentKVs_of_parseExecutorKVs hparse
    have hmetadata : metadataOf result.1 executorID = executorData.metadata := by
      rw [metadataOf, (hagree executorID).1, hdata]
      rfl
    refine Option.ext fun value => ?_
    have hread := parseExecutorAssignmentKVs_metadata (s.nodup_keys_range _) (noBareMetadata_range hbare) hresult
      executorID name value
    rw [hmetadata] at hread
    refine hread.trans ?_
    rw [← metadataAt_iff_metadataText hid, HasMetadata, MetadataAt]
    simp only [Store.mem_range_iff, Range.contains, (hasPrefix_buildMetadataKey_iff hid hid).mpr rfl, true_and]

/-- What the reads return is the metadata of the last heartbeat exactly if no
entry was dropped since the executor was created. -/
theorem metadata_returned_iff_nothing_dropped [DecidableEq F] [Float64 F] (pre ns executorID : String)
    (hid : SlashFree executorID) (w w' : Writers F) (hready : Ready pre ns executorID w)
    (earlier : List (Map String String)) (last : Map String String)
    (hrun : Heartbeats pre ns executorID w (earlier ++ [last]) w') (metadata : Map String String)
    (hreturned : Returned pre ns executorID w'.store metadata) :
    (∀ name, metadata.lookup name = last.lookup name) ↔ NothingDropped pre ns executorID w.store earlier last := by
  obtain ⟨hready', hstored⟩ := hrun.stored hid hready
  refine forall_congr' fun name => ?_
  rw [hreturned.lookup hid hready'.bare, hstored, List.foldl_append, List.foldl_cons, List.foldl_nil]
  cases hlast : last.lookup name with
  | some text =>
    have hmem : name ∈ last := Map.mem_iff_exists_lookup.mpr ⟨text, hlast⟩
    simp [hmem]
  | none =>
    have hmem : name ∉ last := AList.lookup_eq_none.mp hlast
    rw [Option.none_or, foldl_or_eq_none_iff, metadataText, Option.map_eq_none_iff]
    simp only [hmem, imp_false, not_or, not_exists, not_and, ne_eq, not_not]

/-- A heartbeat of executor a that carries some metadata. -/
def beat (metadata : Map String String) (s : Store (Value ExactFloat)) :
    Except StoreError Unit × Store (Value ExactFloat) :=
  recordHeartbeat "/shards" "orders" .stored "a" ⟨1, .active, ∅, metadata, none⟩ .delivered s

def zoned : Map String String := Map.ofList [("zone", "z")]

def zonedWithAddress : Map String String := Map.ofList [("zone", "y"), ("addr", "1")]

theorem ready_empty : Ready "/shards" "orders" "a" (⟨.empty, []⟩ : Writers ExactFloat) where
  sound := List.forall_mem_nil _
  calls := List.forall_mem_nil _
  bare := fun _ _ => Store.get_empty _

theorem heartbeats_beat {first second : Map String String} (h : (beat first .empty).1 = .ok ())
    (h' : (beat second (beat first .empty).2).1 = .ok ()) :
    Heartbeats "/shards" "orders" "a" ⟨.empty, []⟩ ([first] ++ [second])
      ⟨(beat second (beat first .empty).2).2, []⟩ := by
  have hfirst : recordHeartbeat "/shards" "orders" .stored "a" ⟨1, .active, ∅, first, none⟩ .delivered .empty =
      (.ok (), (beat first .empty).2) := Prod.ext h rfl
  have hsecond : recordHeartbeat "/shards" "orders" .stored "a" ⟨1, .active, ∅, second, none⟩ .delivered
      (beat first .empty).2 = (.ok (), (beat second (beat first .empty).2).2) := Prod.ext h' rfl
  exact .heartbeat (.heartbeat (.start ⟨.empty, []⟩) hfirst) hsecond

theorem zonedWithAddress_returned : ∃ w' : Writers ExactFloat, ∃ metadata,
    Heartbeats "/shards" "orders" "a" ⟨.empty, []⟩ ([zoned] ++ [zonedWithAddress]) w' ∧
      Returned "/shards" "orders" "a" w'.store metadata ∧
      ∀ name, metadata.lookup name = zonedWithAddress.lookup name := by
  have hread : (getAssignmentState "/shards" "orders"
      (beat zonedWithAddress (beat zoned .empty).2).2).toOption.isSome = true := by decide +kernel
  obtain ⟨state, hstate⟩ := Option.isSome_iff_exists.mp hread
  have hdropped : NothingDropped "/shards" "orders" "a" (.empty : Store (Value ExactFloat)) [zoned] zonedWithAddress := by
    rintro name (hget | ⟨sent, hsent, hname⟩)
    · exact absurd (Store.get_empty _) hget
    · rw [List.mem_singleton.mp hsent] at hname
      obtain rfl : name = "zone" := by simpa using Map.mem_ofList.mp hname
      decide
  have hrun := heartbeats_beat (by decide +kernel : (beat zoned .empty).1 = .ok ())
    (by decide +kernel : (beat zonedWithAddress (beat zoned .empty).2).1 = .ok ())
  have hreturned : Returned "/shards" "orders" "a" (beat zonedWithAddress (beat zoned .empty).2).2 _ :=
    .getAssignmentState (toOption_eq_some_iff.mp hstate)
  refine ⟨_, _, hrun, hreturned, ?_⟩
  exact (metadata_returned_iff_nothing_dropped "/shards" "orders" "a" (by decide) _ _ ready_empty [zoned]
    zonedWithAddress hrun _ hreturned).mpr hdropped

/-- The zone of the first heartbeat is still read after the second, which has
no metadata. -/
theorem droppedZone_returned : ∃ w' : Writers ExactFloat,
    Heartbeats "/shards" "orders" "a" ⟨.empty, []⟩ ([zoned] ++ [∅]) w' ∧
      ((getExecutorState "/shards" "orders" "a" w'.store).toOption.bind fun state =>
        state.heartbeat.bind fun heartbeat => heartbeat.metadata.lookup "zone") = some "z" ∧
      ((getState "/shards" "orders" .stored w'.store).toOption.bind fun state =>
        (state.executors.lookup "a").bind fun heartbeat => heartbeat.metadata.lookup "zone") = some "z" ∧
      ((getAssignmentState "/shards" "orders" w'.store).toOption.bind fun state =>
        (state.executorMetadata.lookup "a").bind fun metadata => metadata.lookup "zone") = some "z" :=
  ⟨_, heartbeats_beat (by decide +kernel) (by decide +kernel), by decide +kernel, by decide +kernel, by decide +kernel⟩

end Reads

end executorstore
