import ShardManager.Replicas.System

open golang etcd etcdkeys store executorstore ownership

namespace replicas

open etcdtypes (Value Encoding fromAssignedState)

variable {F : Type} {pre ns : String} {s s' s₀ : Store (Value F)}

/-- The shards in the assignment record of each executor. -/
def Owns (pre ns : String) (s : Store (Value F)) : Table String String := fun executorID shardID =>
  ∃ kv record, s.get (assignedStateKey pre ns executorID) = some kv ∧ kv.value = .assignedState record ∧
    shardID ∈ record.assignedShards.map Prod.fst

/-- The shards listed in a record, none for a missing one. -/
def recordShards (pre ns : String) (s : Store (Value F)) (executorID : String) : List String :=
  match s.get (assignedStateKey pre ns executorID) with
  | some ⟨.assignedState record, _⟩ => record.assignedShards.map Prod.fst
  | _ => []

theorem owns_iff_mem_recordShards {executorID shardID : String} :
    Owns pre ns s executorID shardID ↔ shardID ∈ recordShards pre ns s executorID := by
  unfold Owns recordShards
  constructor
  · rintro ⟨⟨value, revision⟩, record, hget, rfl, hmem⟩
    rwa [hget]
  · intro hmem
    split at hmem
    · rename_i record revision hget
      exact ⟨_, record, hget, rfl, hmem⟩
    · cases hmem

instance (executorID shardID : String) : Decidable (Owns pre ns s executorID shardID) :=
  decidable_of_iff _ owns_iff_mem_recordShards.symm

/-- Assignment records are stored for executors whose identifier is a single
segment, and nowhere else. -/
def RecordKeys (pre ns : String) (s : Store (Value F)) : Prop :=
  ∀ key kv record, s.get key = some kv → kv.value = .assignedState record →
    ∃ executorID, SlashFree executorID ∧ key = assignedStateKey pre ns executorID

theorem assignedStateKey_inj {executorID executorID' : String}
    (h : assignedStateKey pre ns executorID = assignedStateKey pre ns executorID') : executorID = executorID' :=
  (buildExecutorKey_inj ExecutorKeyType.known_assignedState ExecutorKeyType.known_assignedState h).1

theorem assignedStateKey_ne_of_type {executorID executorID' : String} {kt : ExecutorKeyType} (hkt : kt.Known)
    (hne : kt ≠ .assignedState) : assignedStateKey pre ns executorID ≠ buildExecutorKey pre ns executorID' kt :=
  fun h => hne (buildExecutorKey_inj ExecutorKeyType.known_assignedState hkt h).2.symm

theorem not_owns_empty {executorID shardID : String} :
    ¬Owns pre ns (.empty : Store (Value F)) executorID shardID := by
  rintro ⟨kv, record, hget, -⟩
  rw [Store.get_empty] at hget
  cases hget

theorem recordKeys_empty : RecordKeys pre ns (.empty : Store (Value F)) := by
  intro key kv record hget
  rw [Store.get_empty] at hget
  cases hget

theorem Owns.slashFree (hkeys : RecordKeys pre ns s) {executorID shardID : String}
    (h : Owns pre ns s executorID shardID) : SlashFree executorID := by
  obtain ⟨kv, record, hget, hvalue, -⟩ := h
  obtain ⟨e, he, heq⟩ := hkeys _ _ _ hget hvalue
  rwa [assignedStateKey_inj heq]

theorem owns_congr {executorID : String}
    (h : s'.get (assignedStateKey pre ns executorID) = s.get (assignedStateKey pre ns executorID))
    (shardID : String) : Owns pre ns s' executorID shardID ↔ Owns pre ns s executorID shardID := by
  unfold Owns
  rw [h]

/-- A step that leaves every record alone changes no ownership. -/
theorem owns_eq_of_records (hkeys : RecordKeys pre ns s) (hkeys' : RecordKeys pre ns s')
    (h : ∀ executorID, SlashFree executorID →
      s'.get (assignedStateKey pre ns executorID) = s.get (assignedStateKey pre ns executorID)) :
    Owns pre ns s' = Owns pre ns s := by
  funext executorID shardID
  apply propext
  constructor
  · intro howns
    exact (owns_congr (h executorID (howns.slashFree hkeys')) shardID).mp howns
  · intro howns
    exact (owns_congr (h executorID (howns.slashFree hkeys)) shardID).mpr howns

/-- What a snapshot stores is owned in the store it was read from. -/
theorem owns_of_stores [Encoding F] {state : NamespaceState F}
    (hdescribes : Describes pre ns s state.toAssignmentState) {executorID shardID : String}
    (h : state.Stores executorID shardID) : Owns pre ns s executorID shardID := by
  obtain ⟨assigned, hlookup, hmem⟩ := NamespaceState.stores_iff.mp h
  obtain ⟨-, kv, record, hget, hvalue, rfl⟩ := (hdescribes.assignments _ _).mp hlookup
  exact ⟨kv, record, hget, hvalue, Map.mem_ofList.mp hmem⟩

theorem owns_iff_stores [Encoding F] {state : NamespaceState F}
    (hdescribes : Describes pre ns s state.toAssignmentState) {executorID : String}
    (hid : SlashFree executorID) (shardID : String) :
    Owns pre ns s executorID shardID ↔ state.Stores executorID shardID := by
  refine ⟨?_, owns_of_stores hdescribes⟩
  rintro ⟨kv, record, hget, hvalue, hmem⟩
  rw [NamespaceState.stores_iff]
  refine ⟨_, (hdescribes.assignments _ _).mpr ⟨hid, kv, record, hget, hvalue, rfl⟩, ?_⟩
  exact Map.mem_ofList.mpr hmem

section Frame

variable [DecidableEq F] {ops : List (Op (Value F))}

/-- Writing anything but records keeps records where they belong. -/
theorem recordKeys_of_applied (h : Applied ops s s') (hkeys : RecordKeys pre ns s)
    (hputs : ∀ {key value}, Op.put key value ∈ ops → ∀ record, value ≠ .assignedState record) :
    RecordKeys pre ns s' := by
  intro key kv record hget hvalue
  rcases h.get_cases key with ⟨value, hput, hget'⟩ | hget' | hget'
  · rw [hget', Option.some.injEq] at hget
    subst hget
    exact absurd hvalue (hputs hput record)
  · rw [hget'] at hget
    cases hget
  · rw [hget'] at hget
    exact hkeys _ _ _ hget hvalue

end Frame

/-- A step of the store that may remove records but writes none. -/
structure Sheds (pre ns : String) (gone : String → Prop) (s s' : Store (Value F)) : Prop where
  follows : s.Follows s'
  keys : RecordKeys pre ns s → RecordKeys pre ns s'
  kept : ∀ {executorID}, SlashFree executorID → ¬gone executorID →
    s'.get (assignedStateKey pre ns executorID) = s.get (assignedStateKey pre ns executorID)
  removed : ∀ {executorID}, SlashFree executorID → gone executorID →
    s'.get (assignedStateKey pre ns executorID) = none

/-- A step of the store that leaves every record alone. -/
abbrev Spares (pre ns : String) (s s' : Store (Value F)) : Prop := Sheds pre ns (fun _ => False) s s'

theorem Spares.refl (s : Store (Value F)) : Spares pre ns s s :=
  ⟨.refl s, id, fun _ _ => rfl, fun _ h => h.elim⟩

theorem Spares.owns_eq (h : Spares pre ns s s') (hkeys : RecordKeys pre ns s) :
    Owns pre ns s' = Owns pre ns s :=
  owns_eq_of_records hkeys (h.keys hkeys) fun _ hid => h.kept hid id

/-- Whoever owns a shard afterwards owned it before. -/
theorem Sheds.owns_of_owns {gone : String → Prop} (h : Sheds pre ns gone s s') (hkeys : RecordKeys pre ns s)
    {executorID shardID : String} (howns : Owns pre ns s' executorID shardID) :
    Owns pre ns s executorID shardID := by
  have hid := howns.slashFree (h.keys hkeys)
  by_cases hgone : gone executorID
  · obtain ⟨kv, record, hget, -⟩ := howns
    rw [h.removed hid hgone] at hget
    cases hget
  · exact (owns_congr (h.kept hid hgone) shardID).mp howns

section Effects

variable [DecidableEq F]

/-- Operations that write no record and touch none of them. -/
theorem spares_of_applied {ops : List (Op (Value F))} (h : Applied ops s s')
    (hvalues : ∀ {key value}, Op.put key value ∈ ops → ∀ record, value ≠ .assignedState record)
    (hputs : ∀ {executorID value}, SlashFree executorID →
      Op.put (assignedStateKey pre ns executorID) value ∉ ops)
    (hdeletes : ∀ {executorID range}, SlashFree executorID → Op.delete range ∈ ops →
      range.contains (assignedStateKey pre ns executorID) = false) : Spares pre ns s s' :=
  ⟨h.follows, fun hkeys => recordKeys_of_applied h hkeys hvalues,
    fun hid _ => h.get_of_spared (fun _ => hputs hid) (fun _ => hdeletes hid), fun _ h => h.elim⟩

/-- Heartbeats, with whatever identifier and metadata, spare the records. -/
theorem recordHeartbeat_spares [Float64 F] (order : RangeOrder) (executorID : String)
    (request : HeartbeatState F) (fate : Fate) (s : Store (Value F)) :
    Spares pre ns s (recordHeartbeat pre ns order executorID request fate s).2 := by
  rcases hcall : recordHeartbeat pre ns order executorID request fate s with ⟨result, s'⟩
  rcases recordHeartbeat_cases hcall with ⟨rfl, -⟩ | ⟨reportedShards, hreports, happlied⟩
  · exact .refl _
  refine ⟨happlied.follows, fun hkeys => recordKeys_of_applied happlied hkeys ?_, fun {e} hid _ => ?_, fun _ h => h.elim⟩
  · intro key value hput record hvalue
    rcases mem_heartbeatOps_or_touch hput with hput | hput
    · rcases put_mem_heartbeatOps hput with
        ⟨name, text, -, -, rfl⟩ | ⟨-, rfl⟩ | ⟨-, rfl⟩ | ⟨-, rfl⟩ | ⟨host, -, rfl, -⟩
      · cases hvalue
      · cases hvalue
      · cases hvalue
      · rw [hvalue] at hreports
        exact marshalReports_ne_assignedState hreports
      · cases hvalue
    · rw [touchAssignmentVersion, Op.put.injEq, hvalue] at hput
      cases hput.2
  · refine get_of_heartbeat happlied (executorKey_ne_version e .assignedState) fun value hput => ?_
    rcases put_mem_heartbeatOps hput with
      ⟨name, text, -, hkey, -⟩ | ⟨hkey, -⟩ | ⟨hkey, -⟩ | ⟨hkey, -⟩ | ⟨host, hkey, -⟩
    · exact buildExecutorKey_ne_buildMetadataKey hid ExecutorKeyType.known_assignedState _ _ hkey
    all_goals exact assignedStateKey_ne_of_type (by decide) (by decide) hkey

/-- Transactions about other things spare the records. -/
theorem other_spares {cmps : List (Cmp (Value F))} {ops : List (Op (Value F))} (fate : Fate)
    (hops : ops.all (sparesRecords pre ns) = true) (s : Store (Value F)) :
    Spares pre ns s ((Txn.flat cmps ops []).send fate s).2 := by
  rcases hsend : (Txn.flat cmps ops []).send fate s with ⟨result, s'⟩
  rw [List.all_eq_true] at hops
  have hrecord : ∀ {e}, SlashFree e → isRecordKey pre ns (assignedStateKey pre ns e) = true := by
    intro e hid
    rw [isRecordKey, assignedStateKey, parseExecutorKey_buildExecutorKey hid ExecutorKeyType.known_assignedState]
  have hspared : ∀ {op : Op (Value F)}, op ∈ (if cmpsHold s cmps then ops else []) →
      sparesRecords pre ns op = true := by
    intro op hop
    split at hop
    · exact hops op hop
    · cases hop
  rcases Txn.send_flat_cases hsend with ⟨rfl, -⟩ | ⟨happlied, -⟩
  · exact .refl _
  refine spares_of_applied happlied ?_ ?_ ?_
  · rintro key value hput record rfl
    cases hspared hput
  · intro e value hid hput
    have hspare := hspared hput
    unfold sparesRecords at hspare
    cases value <;> simp [hrecord hid] at hspare
  · intro e range hid hdelete
    have hspare := hspared hdelete
    cases range with
    | key key =>
      rw [Range.contains, decide_eq_false_iff_not]
      rintro rfl
      simp [sparesRecords, hrecord hid] at hspare
    | withPrefix pre' => cases hspare

/-- A batch of `DeleteExecutors` removes the records of its executors. -/
theorem deleteBatch_sheds {call : CommitOps (Value F)} {executorIDs : List String}
    (hops : ∀ op ∈ call.ops, ∃ executorID ∈ executorIDs, op = deletion pre ns executorID)
    (hextra : call.extraOps = [touchAssignmentVersion pre ns])
    (hids : ∀ executorID ∈ executorIDs, SlashFree executorID) {fate : Fate} {progress : Progress (Value F)}
    (h : call.commitBatch fate s = (progress, s')) :
    ∃ gone : String → Prop, (∀ {executorID}, gone executorID → executorID ∈ executorIDs) ∧
      Sheds pre ns gone s s' := by
  rcases CommitOps.commitBatch_cases h with ⟨rfl, -⟩ | ⟨cmps, batch, -, hbatch, -, happlied, -⟩
  · exact ⟨fun _ => False, False.elim, Spares.refl _⟩
  rw [hextra] at happlied
  refine ⟨fun e => deletion pre ns e ∈ batch ∧ e ∈ executorIDs, fun h => h.2, happlied.follows, ?_, ?_, ?_⟩
  · refine fun hkeys => recordKeys_of_applied happlied hkeys ?_
    intro key value hput record hvalue
    rcases List.mem_append.mp hput with hput | hput
    · obtain ⟨e, -, heq⟩ := hops _ (CommitOps.mem_of_mem_batch hbatch hput)
      cases heq
    · rw [List.mem_singleton, touchAssignmentVersion, Op.put.injEq, hvalue] at hput
      cases hput.2
  · intro e hid hgone
    refine get_of_deletions (fun op hop => hops op (CommitOps.mem_of_mem_batch hbatch hop)) happlied
      (executorKey_ne_version e .assignedState) fun e' he' hmem => Bool.eq_false_iff.mpr fun hkeyPrefix => ?_
    obtain rfl := (hasPrefix_buildExecutorKey_iff hid (hids e' he')).mp hkeyPrefix
    exact hgone ⟨hmem, he'⟩
  · intro e hid hgone
    refine happlied.get_of_deleted (List.mem_append_left _ hgone.1) ?_
    exact (hasPrefix_buildExecutorKey_iff hid hid).mpr rfl

end Effects

end replicas
