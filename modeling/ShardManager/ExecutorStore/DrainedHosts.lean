import ShardManager.ExecutorStore.WriteOps

open golang etcd etcdkeys store types

namespace drainedhosts

open etcdtypes (Value Encoding)
open executorstore

variable {F : Type} {pre ns : String} {s s' : Store (Value F)}

/-- What is stored about a drained host: when, by whom and why it was drained. -/
def drainedHostAt (pre ns : String) (s : Store (Value F)) (hostname : String) : Option (Value F) :=
  (s.get (buildDrainedHostKey pre ns hostname)).map (·.value)

/-- The operation can make a drained host available again. -/
def undoes : Write F → Bool
  | .undrainHosts .. | .resetNamespace _ => true
  | _ => false

/-- The key of the host that an operation drains. -/
def drainedKey : Op (Value F) → Option String
  | .put key (.drainedHost _) => some key
  | _ => none

/-- The keys of the hosts that the next batch of a call drains. -/
def nextKeys (call : CommitOps (Value F)) : List String :=
  (call.batch.getD [] ++ call.extraOps).filterMap drainedKey

/-- The operations on a namespace, with a record of what happens between the
read of a call and its batches: for each call in progress, the keys of the
hosts that batches have drained since the call began. -/
structure System (F : Type) where
  writers : Writers F
  since : List (List String)

section Model

variable [Float64 F] [DecidableEq F] [Encoding F] (pre ns : String)

/-- The record after an operation. -/
def record (label : Write F) (sys : System F) (w : Writers F) : List (List String) :=
  match label with
  | .commitBatch i _ =>
    -- A batch that changes nothing has drained nobody.
    let keys := if w.store.revision = sys.writers.store.revision then []
      else (sys.writers.calls[i]?.map nextKeys).getD []
    let since := sys.since.map (· ++ keys)
    if w.calls.length = sys.writers.calls.length then since else since.eraseIdx i
  | _ => if w.calls.length = sys.writers.calls.length then sys.since else sys.since ++ [[]]

def step (label : Write F) (sys : System F) : Option (System F) :=
  (write pre ns label sys.writers).map fun w => ⟨w, record label sys w⟩

end Model

/-- No host that the next batch of a call drains was drained since its read. -/
def NotDrainedSinceRead (sys : System F) : Write F → Prop
  | .commitBatch i _ => ∀ call ∈ sys.writers.calls[i]?, ∀ keys ∈ sys.since[i]?, ∀ key ∈ nextKeys call, key ∉ keys
  | _ => True

instance (sys : System F) (label : Write F) : Decidable (NotDrainedSinceRead sys label) :=
  match label with
  | .commitBatch i _ => inferInstanceAs (Decidable (∀ call ∈ sys.writers.calls[i]?, ∀ keys ∈ sys.since[i]?,
      ∀ key ∈ nextKeys call, key ∉ keys))
  | .recordHeartbeat .. | .assignShards .. | .recordShardStatistics .. | .recordShardStatisticsUpdate ..
  | .resetNamespace .. | .deleteExecutors .. | .deleteShardStats .. | .drainShards .. | .undrainShards ..
  | .drainHosts .. | .undrainHosts .. => .isTrue trivial

/-- An operation that undoes no drain, and whose batch drains nobody who was
drained since the call read. -/
abbrev Orderly (sys : System F) (label : Write F) : Prop := undoes label = false ∧ NotDrainedSinceRead sys label

section Keys

variable {hostname : String}

theorem hostKey_ne_of_dir {key : String} (dir : String) (h : ¬dir.toList <+: "drained_hosts/".toList)
    (h' : ¬"drained_hosts/".toList <+: dir.toList)
    (hkey : hasPrefix key (buildNamespacePrefix pre ns ++ dir) = true) : key ≠ buildDrainedHostKey pre ns hostname := by
  rintro rfl
  have hhost : hasPrefix (buildDrainedHostKey pre ns hostname) (buildNamespacePrefix pre ns ++ "drained_hosts/") =
      true := hasPrefix_append _ _
  rw [not_hasPrefix_of_dir h' h hhost] at hkey
  cases hkey

theorem hostKey_ne_of_executors {key : String} (hkey : hasPrefix key (buildExecutorsPrefix pre ns) = true) :
    key ≠ buildDrainedHostKey pre ns hostname :=
  hostKey_ne_of_dir "executors/" (by decide) (by decide) hkey

/-- Unless hosts are undrained or the namespace is reset, a drained host's key
is only ever put, and by a batch that drains hosts. -/
theorem put_of_touches {label : Write F} (hlabel : undoes label = false) {op : Op (Value F)}
    (hop : label.Executes pre ns op) (htouch : Touches [op] (buildDrainedHostKey pre ns hostname)) :
    (∃ order maxEtcdTxnOps hosts now, label = .drainHosts order maxEtcdTxnOps hosts now) ∧
      ∃ host, op = .put (buildDrainedHostKey pre ns hostname) (.drainedHost host) := by
  have hversion : ¬Touches [(touchAssignmentVersion pre ns : Op (Value F))] (buildDrainedHostKey pre ns hostname) :=
    fun h => assignmentVersionKey_ne_of_dir "drained_hosts/" (by decide) (hasPrefix_append _ _) (touches_put_iff.mp h)
  have hexecutor : ∀ executorID kt (value : Value F),
      ¬Touches [.put (buildExecutorKey pre ns executorID kt) value] (buildDrainedHostKey pre ns hostname) :=
    fun executorID kt value h =>
      hostKey_ne_of_executors (hasPrefix_executorsPrefix_key executorID kt) (touches_put_iff.mp h).symm
  have hstatistics : ∀ executorID,
      ¬Touches [(.delete (.key (statisticsKey pre ns executorID)) : Op (Value F))]
        (buildDrainedHostKey pre ns hostname) :=
    fun executorID h => hostKey_ne_of_executors (hasPrefix_executorsPrefix_key executorID .shardStatistics)
      (of_decide_eq_true (touches_delete_iff.mp h)).symm
  have hdirectory : ∀ executorID,
      ¬Touches [(.delete (.withPrefix (buildExecutorIDPrefix pre ns executorID)) : Op (Value F))]
        (buildDrainedHostKey pre ns hostname) :=
    fun executorID h => hostKey_ne_of_executors
      (hasPrefix_executorsPrefix_of_executorID (touches_delete_iff.mp h)) rfl
  cases label with
  | recordHeartbeat order executorID request fate =>
    rcases hop with rfl | ⟨reportedShards, hop⟩
    · exact absurd htouch hversion
    · obtain ⟨key, value, rfl⟩ := exists_put_of_mem_heartbeatOps hop
      rcases put_mem_heartbeatOps hop with
        ⟨name, text, -, rfl, -⟩ | ⟨rfl, -⟩ | ⟨rfl, -⟩ | ⟨rfl, -⟩ | ⟨host, rfl, -⟩
      · refine absurd (touches_put_iff.mp htouch).symm (hostKey_ne_of_executors ?_)
        rw [hasPrefix_iff, toList_buildMetadataKey]
        exact List.prefix_append _ _
      all_goals exact absurd htouch (hexecutor _ _ _)
  | assignShards order request guard fate =>
    rcases hop with rfl | ⟨executorID, -, record, rfl⟩ | ⟨executorID, -, rfl⟩
    · exact absurd htouch hversion
    · exact absurd htouch (hexecutor executorID .assignedState _)
    · exact absurd htouch (hdirectory executorID)
  | recordShardStatistics executorID assignmentModRevision statistics fate =>
    obtain ⟨payload, rfl⟩ := hop
    exact absurd htouch (hexecutor executorID .shardStatistics _)
  | recordShardStatisticsUpdate executorID statistics fate =>
    rcases hop with rfl | ⟨payload, rfl⟩
    · exact absurd htouch (hstatistics executorID)
    · exact absurd htouch (hexecutor executorID .shardStatistics _)
  | resetNamespace fate => cases hlabel
  | deleteExecutors maxEtcdTxnOps executorIDs guard =>
    rcases hop with rfl | ⟨executorID, -, rfl⟩
    · exact absurd htouch hversion
    · exact absurd htouch (hdirectory executorID)
  | deleteShardStats order maxEtcdTxnOps shardIDs guard =>
    obtain ⟨executorID, -, rfl | ⟨payload, rfl⟩⟩ := hop
    · exact absurd htouch (hstatistics executorID)
    · exact absurd htouch (hexecutor executorID .shardStatistics _)
  | drainShards maxEtcdTxnOps shardIDs =>
    rcases hop with rfl | ⟨shardID, -, rfl⟩
    · exact absurd htouch hversion
    · exact absurd (touches_put_iff.mp htouch).symm
        (hostKey_ne_of_dir "drained_shards/" (by decide) (by decide) (hasPrefix_append _ _))
  | undrainShards maxEtcdTxnOps shardIDs =>
    rcases hop with rfl | ⟨shardID, -, rfl⟩
    · exact absurd htouch hversion
    · exact absurd (of_decide_eq_true (touches_delete_iff.mp htouch)).symm
        (hostKey_ne_of_dir "drained_shards/" (by decide) (by decide) (hasPrefix_append _ _))
  | drainHosts order maxEtcdTxnOps hosts now =>
    obtain ⟨other, host, rfl⟩ := hop
    rw [← touches_put_iff.mp htouch]
    exact ⟨⟨order, maxEtcdTxnOps, hosts, now, rfl⟩, host, rfl⟩
  | undrainHosts maxEtcdTxnOps hostnames => cases hlabel
  | commitBatch i fate => cases hop

end Keys

section Reads

theorem validate_of_mem {hosts : List DrainedHost} {now : Time} {validated : Map String DrainedHost}
    (h : validateDrainedHosts hosts now = .ok validated) {host : String} (hmem : host ∈ validated) :
    hostname.validate host = .ok () := by
  refine foldlM_ok_induction (fun _ (acc : Map String DrainedHost) => ∀ host ∈ acc, hostname.validate host = .ok ())
    (fun _ hempty => absurd hempty (AList.notMem_empty _)) ?_ h host hmem
  intro seen next rest acc acc' _ hacc hstep host hmem
  obtain ⟨⟨⟩, hvalid, hstep⟩ := bind_eq_ok_iff.mp hstep
  split at hstep
  · cases hstep
    exact hacc host hmem
  · cases hstep
    rcases (AList.mem_insert _).mp hmem with rfl | hmem
    · exact hvalid
    · exact hacc host hmem

/-- A call drains only hosts that it has read as not drained. -/
theorem get_eq_none_of_drainHosts {order : RangeOrder} {maxEtcdTxnOps : Int} {hosts : List DrainedHost} {now : Time}
    {call : CommitOps (Value F)} (h : drainHosts pre ns order maxEtcdTxnOps hosts now s = .ok (.running call))
    {hostname : String} {host : DrainedHost}
    (hop : Op.put (buildDrainedHostKey pre ns hostname) (.drainedHost host) ∈ call.ops ++ call.extraOps) :
    s.get (buildDrainedHostKey pre ns hostname) = none := by
  obtain ⟨validated, hvalidated, h⟩ := bind_eq_ok_iff.mp h
  obtain ⟨hops, hextra, -⟩ := commitOps_running (Except.ok.inj h)
  rw [hops, hextra, List.append_nil] at hop
  obtain ⟨⟨name, entry⟩, hentry, hop⟩ := List.mem_filterMap.mp hop
  dsimp only at hop
  split at hop
  · cases hop
  · rename_i hnot
    rw [Option.some.injEq, Op.put.injEq] at hop
    obtain rfl : name = hostname := by simpa [buildDrainedHostKey] using hop.1
    have hvalid := validate_of_mem hvalidated
      (Map.mem_iff_exists_lookup.mpr ⟨entry, Map.mem_toList_iff.mp ((order.range_perm _ _).mem_iff.mp hentry)⟩)
    rw [mem_parseDrainedHostKVs_range] at hnot
    refine Option.eq_none_iff_forall_ne_some.mpr fun kv hget => hnot ⟨hvalid, kv, hget⟩

end Reads

section Runs

variable [Float64 F] [DecidableEq F] [Encoding F]

/-- The operations in progress leave hosts drained. -/
def Drains (pre ns : String) (w : Writers F) : Prop :=
  w.Commits (ExecutedBy pre ns fun label => undoes label = false)

/-- The hosts that a call drains are not drained yet, or were so since its read. -/
def Fresh (pre ns : String) (s : Store (Value F)) (call : CommitOps (Value F)) (keys : List String) : Prop :=
  ∀ hostname host, Op.put (buildDrainedHostKey pre ns hostname) (.drainedHost host) ∈ call.ops ++ call.extraOps →
    buildDrainedHostKey pre ns hostname ∈ keys ∨ s.get (buildDrainedHostKey pre ns hostname) = none

omit [Float64 F] [DecidableEq F] [Encoding F] in
/-- It does not depend on how far the call has come. -/
theorem Fresh.of_sameCall {call call' : CommitOps (Value F)} {keys : List String} (h : Fresh pre ns s call keys)
    (hsame : CommitOps.SameCall call call') : Fresh pre ns s call' keys := by
  unfold Fresh
  rw [hsame.ops, hsame.extraOps]
  exact h

structure Recorded (pre ns : String) (sys : System F) : Prop where
  drains : Drains pre ns sys.writers
  length : sys.since.length = sys.writers.calls.length
  fresh : ∀ {i : Nat} {call keys}, sys.writers.calls[i]? = some call → sys.since[i]? = some keys →
    Fresh pre ns sys.writers.store call keys

/-- An operation leaves the key of a drained host alone, or it is a batch that
drains the host. -/
theorem get_of_write {w w' : Writers F} {label : Write F} (hdrains : Drains pre ns w) (hlabel : undoes label = false)
    (h : write pre ns label w = some w') (hostname : String) :
    w'.store.get (buildDrainedHostKey pre ns hostname) = w.store.get (buildDrainedHostKey pre ns hostname) ∨
      ∃ i fate call host, label = .commitBatch i fate ∧ w.calls[i]? = some call ∧
        Op.put (buildDrainedHostKey pre ns hostname) (.drainedHost host) ∈ call.ops ++ call.extraOps ∧
        buildDrainedHostKey pre ns hostname ∈ nextKeys call ∧ w'.store.revision ≠ w.store.revision := by
  rcases write_cases h with (⟨hbatched, htransacts, -⟩ | ⟨hstore, -⟩) | ⟨i, fate, call, rfl, hcall, hadvances⟩
  · left
    rcases htransacts with hsame | ⟨ops, hops, happlied⟩
    · rw [hsame]
    · refine happlied.get_of_not_touches fun htouch => ?_
      obtain ⟨op, hop, htouch⟩ := htouch.exists_mem
      obtain ⟨⟨_, _, _, _, rfl⟩, -⟩ := put_of_touches hlabel (hops op hop) htouch
      cases hbatched
  · exact .inl (by rw [hstore])
  · have hcommit : ∃ progress, call.commitBatch fate w.store = (progress, w'.store) := by
      rcases hadvances with ⟨call', hcommit, -⟩ | ⟨result, hcommit, -⟩
      · exact ⟨_, hcommit⟩
      · exact ⟨_, hcommit⟩
    obtain ⟨progress, hcommit⟩ := hcommit
    rcases CommitOps.commitBatch_cases hcommit with ⟨hsame, -⟩ | ⟨-, batch, -, hbatch, -, happlied, -⟩
    · exact .inl (by rw [hsame])
    by_cases htouch : Touches (batch ++ call.extraOps) (buildDrainedHostKey pre ns hostname)
    · obtain ⟨op, hop, htouch⟩ := htouch.exists_mem
      have hcallOp : op ∈ call.ops ++ call.extraOps :=
        List.mem_append.mpr ((List.mem_append.mp hop).imp_left (CommitOps.mem_of_mem_batch hbatch))
      obtain ⟨begun, hbegun, hexecutes⟩ := hdrains call (List.mem_of_getElem? hcall) op hcallOp
      obtain ⟨-, host, rfl⟩ := put_of_touches hbegun hexecutes htouch
      refine .inr ⟨i, fate, call, host, rfl, hcall, hcallOp, ?_, ?_⟩
      · rw [nextKeys, hbatch]
        exact List.mem_filterMap.mpr ⟨_, hop, rfl⟩
      · rw [happlied.revision_of_put hop]
        omega
    · exact .inl (happlied.get_of_not_touches htouch)

section Step

variable {sys : System F} {w' : Writers F} {label : Write F}

/-- What a batch drains is recorded for every call in progress. -/
theorem Fresh.of_write (hdrains : Drains pre ns sys.writers) (hlabel : undoes label = false)
    (h : write pre ns label sys.writers = some w') {call : CommitOps (Value F)} {keys keys' : List String}
    (hfresh : Fresh pre ns sys.writers.store call keys) (hkeys : ∀ key ∈ keys, key ∈ keys')
    (hrecorded : ∀ {i fate other}, label = .commitBatch i fate → sys.writers.calls[i]? = some other →
      w'.store.revision ≠ sys.writers.store.revision → ∀ key ∈ nextKeys other, key ∈ keys') :
    Fresh pre ns w'.store call keys' := by
  intro hostname host hop
  rcases get_of_write hdrains hlabel h hostname with hsame | ⟨i, fate, other, _, rfl, hother, -, hkey, hrevision⟩
  · rw [hsame]
    exact (hfresh hostname host hop).imp_left (hkeys _)
  · exact .inl (hrecorded rfl hother hrevision _ hkey)

/-- A call that begins has just read. -/
theorem fresh_of_begin (hlabel : undoes label = false) (h : write pre ns label sys.writers = some w')
    {call : CommitOps (Value F)} (hcalls : w'.calls = sys.writers.calls ++ [call])
    (hops : ∀ op ∈ call.ops ++ call.extraOps, label.Executes pre ns op) : Fresh pre ns sys.writers.store call [] := by
  intro hostname host hop
  obtain ⟨⟨order, maxEtcdTxnOps, hosts, now, rfl⟩, -⟩ :=
    put_of_touches hlabel (hops _ hop) (touches_put_iff.mpr rfl)
  cases h
  unfold Writers.begin at hcalls
  split at hcalls
  · rename_i call' hcall
    obtain rfl : call' = call := by simpa using hcalls
    exact .inr (get_eq_none_of_drainHosts hcall hop)
  · simp at hcalls
  · simp at hcalls

theorem Recorded.of_starts (hrecorded : Recorded pre ns sys) (hlabel : undoes label = false)
    (h : write pre ns label sys.writers = some w') (hbatch : ∀ i fate, label ≠ .commitBatch i fate)
    (hstarts : sys.writers.Starts pre ns w' label) : Recorded pre ns ⟨w', record label sys w'⟩ := by
  have hdrains := (write_executedBy hrecorded.drains hlabel h).2
  have hrecord : record label sys w' =
      if w'.calls.length = sys.writers.calls.length then sys.since else sys.since ++ [[]] := by
    cases label with
    | commitBatch i fate => exact absurd rfl (hbatch i fate)
    | _ => rfl
  have hold : ∀ {i : Nat} {call keys}, sys.writers.calls[i]? = some call → sys.since[i]? = some keys →
      Fresh pre ns w'.store call keys :=
    fun hcall hkeys => (hrecorded.fresh hcall hkeys).of_write hrecorded.drains hlabel h (fun _ hkey => hkey)
      fun hcommit => absurd hcommit (hbatch _ _)
  have hsame : w'.calls = sys.writers.calls → Recorded pre ns ⟨w', record label sys w'⟩ := by
    intro hcalls
    rw [hrecord, if_pos (by rw [hcalls])]
    refine ⟨hdrains, by rw [hcalls, hrecorded.length], fun hcall hkeys => hold ?_ hkeys⟩
    rwa [hcalls] at hcall
  rcases hstarts with ⟨-, -, hcalls⟩ | ⟨hstore, hcalls | ⟨call, hcalls, hops⟩⟩
  · exact hsame hcalls
  · exact hsame hcalls
  rw [hrecord, if_neg (by simp [hcalls])]
  refine ⟨hdrains, by simp [hcalls, hrecorded.length], ?_⟩
  intro i other keys hcall hkeys
  dsimp only at hcall hkeys ⊢
  rw [hcalls, List.getElem?_append] at hcall
  rw [List.getElem?_append, hrecorded.length] at hkeys
  split at hcall
  · rename_i hlt
    rw [if_pos hlt] at hkeys
    exact hold hcall hkeys
  · rename_i hlt
    rw [if_neg hlt] at hkeys
    obtain rfl := List.mem_singleton.mp (List.mem_of_getElem? hcall)
    obtain rfl := List.mem_singleton.mp (List.mem_of_getElem? hkeys)
    rw [hstore]
    exact fresh_of_begin hlabel h hcalls hops

theorem Recorded.of_advances (hrecorded : Recorded pre ns sys) {i : Nat} {fate : Fate}
    (h : write pre ns (.commitBatch i fate) sys.writers = some w') {call : CommitOps (Value F)}
    (hadvances : sys.writers.Advances w' i fate call) : Recorded pre ns ⟨w', record (.commitBatch i fate) sys w'⟩ := by
  have hdrains := (write_executedBy hrecorded.drains rfl h).2
  obtain ⟨hcall, hadvances⟩ := hadvances
  obtain ⟨keys, hkeys⟩ : ∃ keys, keys = if w'.store.revision = sys.writers.store.revision then []
      else (sys.writers.calls[i]?.map nextKeys).getD [] := ⟨_, rfl⟩
  have hold : ∀ {j : Nat} {other keys'}, sys.writers.calls[j]? = some other →
      (sys.since.map (· ++ keys))[j]? = some keys' → Fresh pre ns w'.store other keys' := by
    intro j other keys' hother hkeys'
    rw [List.getElem?_map] at hkeys'
    obtain ⟨before, hbefore, rfl⟩ := Option.map_eq_some_iff.mp hkeys'
    refine (hrecorded.fresh hother hbefore).of_write hrecorded.drains rfl h
      (fun _ hkey => List.mem_append_left _ hkey) ?_
    intro _ _ committing hcommit hcommitting hrevision key hkey
    cases hcommit
    rw [hcommitting] at hkeys
    rw [hkeys, if_neg hrevision]
    exact List.mem_append_right _ hkey
  have hlt := (List.getElem?_eq_some_iff.mp hcall).1
  rcases hadvances with ⟨call', hcommit, hcalls⟩ | ⟨result, -, hcalls⟩
  · have hrecord : record (.commitBatch i fate) sys w' = sys.since.map (· ++ keys) := by
      rw [hkeys]
      exact if_pos (by rw [hcalls, List.length_set])
    rw [hrecord]
    refine ⟨hdrains, by rw [List.length_map, hrecorded.length, hcalls, List.length_set], ?_⟩
    intro j other keys' hother hkeys'
    dsimp only at hother hkeys' ⊢
    rw [hcalls, List.getElem?_set] at hother
    split at hother
    · rename_i heq
      subst heq
      cases hother
      exact (hold hcall hkeys').of_sameCall (CommitOps.sameCall_of_running hcommit)
    · exact hold hother hkeys'
  · have hrecord : record (.commitBatch i fate) sys w' = (sys.since.map (· ++ keys)).eraseIdx i := by
      rw [hkeys]
      refine if_neg ?_
      rw [hcalls, List.length_eraseIdx_of_lt hlt]
      omega
    rw [hrecord]
    refine ⟨hdrains, ?_, ?_⟩
    · dsimp only
      rw [hcalls, List.length_eraseIdx, List.length_eraseIdx, List.length_map, hrecorded.length]
    · intro j other keys' hother hkeys'
      dsimp only at hother hkeys' ⊢
      rw [hcalls, List.getElem?_eraseIdx] at hother
      rw [List.getElem?_eraseIdx] at hkeys'
      split at hother
      · rename_i hj
        rw [if_pos hj] at hkeys'
        exact hold hother hkeys'
      · rename_i hj
        rw [if_neg hj] at hkeys'
        exact hold hother hkeys'

theorem Recorded.step {sys' : System F} (hrecorded : Recorded pre ns sys) (hlabel : undoes label = false)
    (h : step pre ns label sys = some sys') : Recorded pre ns sys' := by
  obtain ⟨w', hwrite, rfl⟩ := Option.map_eq_some_iff.mp h
  by_cases hbatch : ∃ i fate, label = .commitBatch i fate
  · obtain ⟨i, fate, rfl⟩ := hbatch
    obtain ⟨call, hadvances⟩ := Writers.advances_of_write hwrite
    exact hrecorded.of_advances hwrite hadvances
  · refine hrecorded.of_starts hlabel hwrite (fun i fate hlabel => hbatch ⟨i, fate, hlabel⟩) ?_
    rcases write_cases hwrite with hstarts | ⟨i, fate, -, hlabel, -⟩
    · exact hstarts
    · exact absurd ⟨i, fate, hlabel⟩ hbatch

end Step

/-- A host is not drained again by a batch of an orderly step. -/
theorem get_of_step {sys sys' : System F} {label : Write F} (hrecorded : Recorded pre ns sys)
    (horderly : Orderly sys label) (h : step pre ns label sys = some sys') {hostname : String}
    {kv : KeyValue (Value F)} (hget : sys.writers.store.get (buildDrainedHostKey pre ns hostname) = some kv) :
    sys'.writers.store.get (buildDrainedHostKey pre ns hostname) = some kv := by
  obtain ⟨w', hwrite, rfl⟩ := Option.map_eq_some_iff.mp h
  rcases get_of_write hrecorded.drains horderly.1 hwrite hostname with
    hsame | ⟨i, fate, call, host, rfl, hcall, hop, hkey, -⟩
  · exact hsame.trans hget
  · have hlt : i < sys.since.length := hrecorded.length ▸ (List.getElem?_eq_some_iff.mp hcall).1
    have hkeys := List.getElem?_eq_getElem hlt
    rcases hrecorded.fresh hcall hkeys hostname host hop with hsince | hnone
    · exact absurd hsince (horderly.2 call hcall _ hkeys _ hkey)
    · rw [hnone] at hget
      cases hget

/-- Along every run without undraining or reset in which no batch drains a
host that was drained since the call read, what is stored about a drained host
never changes. -/
theorem metadata_kept_of_run (pre ns : String) (s : Store (Value F)) (sys sys' : System F)
    (hreach : transition.Run (step pre ns) Orderly ⟨⟨s, []⟩, []⟩ sys)
    (hrun : transition.Run (step pre ns) Orderly sys sys') :
    ∀ hostname value, drainedHostAt pre ns sys.writers.store hostname = some value →
      drainedHostAt pre ns sys'.writers.store hostname = some value := by
  have hrecorded : Recorded pre ns sys := by
    refine hreach.invariant (Recorded pre ns) (fun _ _ _ hrecorded hmeets hstep => hrecorded.step hmeets.1 hstep)
      ⟨List.forall_mem_nil _, rfl, fun hcall => ?_⟩
    cases hcall
  intro hostname value hvalue
  obtain ⟨kv, hget, rfl⟩ := Option.map_eq_some_iff.mp hvalue
  have hkept : Recorded pre ns sys' ∧ sys'.writers.store.get (buildDrainedHostKey pre ns hostname) = some kv := by
    refine hrun.invariant (fun sys => Recorded pre ns sys ∧
      sys.writers.store.get (buildDrainedHostKey pre ns hostname) = some kv) ?_ ⟨hrecorded, hget⟩
    rintro a label b ⟨ha, hgeta⟩ horderly hstep
    exact ⟨ha.step horderly.1 hstep, get_of_step ha horderly hstep hgeta⟩
  rw [drainedHostAt, hkept.2]
  rfl

end Runs

section Examples

/-- Host `h` is drained at time 1. -/
def drainedOnce : List (Write ExactFloat) :=
  [.drainHosts .stored 128 [⟨"h", 1, "ann", "disk"⟩] 1, .commitBatch 0 .delivered]

/-- A later call names the host again. -/
def drainedAgain : List (Write ExactFloat) :=
  [.drainHosts .stored 128 [⟨"h", 2, "bob", "memory"⟩, ⟨"i", 2, "bob", "memory"⟩] 2, .commitBatch 0 .delivered]

def firstDrain : Value ExactFloat := .drainedHost ⟨"h", 1, "ann", "disk"⟩

theorem drainedAgain_metadata_kept : ∃ sys sys' : System ExactFloat,
    transition.Run (step "s" "n") Orderly ⟨⟨.empty, []⟩, []⟩ sys ∧ transition.Run (step "s" "n") Orderly sys sys' ∧
    drainedHostAt "s" "n" sys.writers.store "h" = some firstDrain ∧
    drainedHostAt "s" "n" sys'.writers.store "h" = some firstDrain := by
  let next := fun (sys : System ExactFloat) label => if decide (Orderly sys label) then step "s" "n" label sys else none
  have hrun : (drainedOnce.foldlM next ⟨⟨.empty, []⟩, []⟩).bind (fun sys => (drainedAgain.foldlM next sys).map fun _ =>
      decide (drainedHostAt "s" "n" sys.writers.store "h" = some firstDrain)) = some true := by decide +kernel
  obtain ⟨sys, hfirst, hrest⟩ := Option.bind_eq_some_iff.mp hrun
  obtain ⟨sys', hsecond, hdrained⟩ := Option.map_eq_some_iff.mp hrest
  have hreach : transition.Run (step "s" "n") Orderly ⟨⟨.empty, []⟩, []⟩ sys :=
    transition.run_of_foldlM _ (fun _ _ => of_decide_eq_true) hfirst
  have hagain : transition.Run (step "s" "n") Orderly sys sys' :=
    transition.run_of_foldlM _ (fun _ _ => of_decide_eq_true) hsecond
  have hvalue := of_decide_eq_true hdrained
  exact ⟨sys, sys', hreach, hagain, hvalue,
    metadata_kept_of_run "s" "n" .empty sys sys' hreach hagain "h" firstDrain hvalue⟩

/-- Two calls read that the host is not drained, and then the first commits. -/
def bothRead : List (Write ExactFloat) :=
  [.drainHosts .stored 128 [⟨"h", 1, "ann", "disk"⟩] 1, .drainHosts .stored 128 [⟨"h", 2, "bob", "memory"⟩] 2,
    .commitBatch 0 .delivered]

/-- The second call replaces when, by whom and why the host was drained. -/
theorem bothRead_metadata_replaced : ∃ w w' : Writers ExactFloat,
    transition.Run (write "s" "n") (fun _ label => undoes label = false) ⟨.empty, []⟩ w ∧
    transition.Run (write "s" "n") (fun _ label => undoes label = false) w w' ∧
    drainedHostAt "s" "n" w.store "h" = some firstDrain ∧
    drainedHostAt "s" "n" w'.store "h" = some (.drainedHost ⟨"h", 2, "bob", "memory"⟩) := by
  let next := fun (w : Writers ExactFloat) label =>
    if decide (undoes label = false) then write "s" "n" label w else none
  have hrun : (bothRead.foldlM next ⟨.empty, []⟩).bind (fun w => ([.commitBatch 0 .delivered].foldlM next w).map
      fun w' => decide (drainedHostAt "s" "n" w.store "h" = some firstDrain ∧
        drainedHostAt "s" "n" w'.store "h" = some (.drainedHost ⟨"h", 2, "bob", "memory"⟩))) = some true := by
    decide +kernel
  obtain ⟨w, hfirst, hrest⟩ := Option.bind_eq_some_iff.mp hrun
  obtain ⟨w', hsecond, hfacts⟩ := Option.map_eq_some_iff.mp hrest
  obtain ⟨hbefore, hafter⟩ := of_decide_eq_true hfacts
  refine ⟨w, w', ?_, ?_, hbefore, hafter⟩
  · exact transition.run_of_foldlM _ (fun _ _ => of_decide_eq_true) hfirst
  · exact transition.run_of_foldlM _ (fun _ _ => of_decide_eq_true) hsecond

end Examples

end drainedhosts
