import ShardManager.Abstract.Transition
import ShardManager.Handler.Calls

open golang etcd etcdkeys store types executorstore handler

namespace heartbeats

open etcdtypes (Value Encoding)

variable {F : Type} {pre ns executorID : String} {hostName : Bytes} {s s' : Store (Value F)}

section Conditions

/-- Every heartbeat is one of the executor, and reports the host. -/
def Reports (executorID : String) (hostName : Bytes) : Label F → Prop
  | .read _ request _ => request.executorID = executorID ∧ request.hostName = some hostName
  | .write label => label.isHeartbeat = false
  | _ => True

/-- The executor was not deleted between the read of a heartbeat and its write. -/
def NotDeletedSinceRead (sys : System F) : Label F → Prop
  | .store i _ _ => ∀ call, sys.calls[i]? = some call → call.deleted = false
  | _ => True

instance (label : Label F) : Decidable (Reports executorID hostName label) :=
  match label with
  | .read _ request _ =>
    inferInstanceAs (Decidable (request.executorID = executorID ∧ request.hostName = some hostName))
  | .write label => inferInstanceAs (Decidable (label.isHeartbeat = false))
  | .store .. => .isTrue trivial
  | .statistics .. => .isTrue trivial

instance (sys : System F) (label : Label F) : Decidable (NotDeletedSinceRead sys label) :=
  match label with
  | .store i _ _ =>
    match hcall : sys.calls[i]? with
    | none => .isTrue fun call h => by rw [hcall] at h; cases h
    | some call =>
      if hdeleted : call.deleted = false then
        .isTrue fun call' h => by rw [hcall] at h; cases h; exact hdeleted
      else .isFalse fun h => hdeleted (h call hcall)
  | .read .. => .isTrue trivial
  | .write .. => .isTrue trivial
  | .statistics .. => .isTrue trivial

end Conditions

section Vital

/-- What every heartbeat stores, and the host that it may leave out. -/
def vital : List ExecutorKeyType := [.heartbeat, .status, .hostMetadata]

theorem known_of_vital {kt : ExecutorKeyType} (h : kt ∈ vital) : kt.Known := by
  revert kt
  decide

def Absent (pre ns executorID : String) (s : Store (Value F)) : Prop :=
  ∀ kt ∈ vital, s.get (buildExecutorKey pre ns executorID kt) = none

/-- The stored host name is the normalized one. -/
def HostStored (pre ns executorID : String) (hostName : Bytes) (s : Store (Value F)) : Prop :=
  ∃ host, hostMetadataAt pre ns s executorID = some host ∧ utf8 host.hostName = hostname.normalize hostName

structure Complete (pre ns executorID : String) (hostName : Bytes) (s : Store (Value F)) : Prop where
  heartbeat : (s.get (buildExecutorKey pre ns executorID .heartbeat)).isSome = true
  host : HostStored pre ns executorID hostName s

variable [DecidableEq F]

/-- Whatever is written besides heartbeats, the vital keys stay or go together. -/
theorem vital_of_applies (h : Applies pre ns s s') :
    (∀ kt ∈ vital, s'.get (buildExecutorKey pre ns executorID kt) = s.get (buildExecutorKey pre ns executorID kt)) ∨
      Absent pre ns executorID s' := by
  have htransacts : Transacts (WriteOp pre ns) s s' := h
  rcases htransacts.kept_or_gone (fun _ hop => hop) executorID with hkept | hgone
  · refine .inl fun kt hkt => hkept kt (known_of_vital hkt) fun op hop => ?_
    refine key_ne_of_writeOp hop (known_of_vital hkt) ?_ ?_
    · rintro rfl
      exact absurd hkt (by decide)
    · rintro rfl
      exact absurd hkt (by decide)
  · exact .inr fun kt hkt => hgone kt (known_of_vital hkt)

end Vital

section Heartbeat

/-- A host name that is left out was stored when the state was read. -/
theorem stored_of_hostMatches [Encoding F] {registry : namespaces.Registry} {request : ExecutorHeartbeatRequest F}
    {executorState : ExecutorState F} (hread : readExecutorState pre registry request s = .ok executorState)
    (hne : hostName ≠ [])
    (hmatches : hostMatches executorState (some hostName) = true) :
    SlashFree request.executorID ∧ HostStored pre request.ns request.executorID hostName s := by
  unfold readExecutorState at hread
  split at hread
  · cases hread
  · split at hread
    · rename_i state hstate
      cases hread
      obtain ⟨hid, executorData, rfl, hreads⟩ := getExecutorState_eq_ok hstate
      have hname : utf8 (heartbeatFromParsed executorData).hostname = hostname.normalize hostName :=
        of_decide_eq_true hmatches
      refine ⟨hid, ?_⟩
      rw [HostStored, ← hreads.hostMetadata]
      change utf8 (HeartbeatState.hostname _) = _ at hname
      unfold HeartbeatState.hostname at hname
      split at hname
      · rename_i host hstored
        exact ⟨host, hstored, hname⟩
      · exact absurd (hostname.normalize_eq_nil_iff.mp hname.symm) hne
    · cases hread
      cases hmatches
    · cases hread

variable [Float64 F] [DecidableEq F] {order : RangeOrder} {request : ExecutorHeartbeatRequest F} {heartbeatTime : Time}
  {executorState : ExecutorState F} {fate : Fate} {result : Except HeartbeatError Unit}

/-- A heartbeat that is stored completes the vital keys, if the host name it
leaves out is still there. -/
theorem complete_of_storeHeartbeat (hvalid : ValidUtf8 (hostname.normalize hostName))
    (hhost : request.hostName = some hostName)
    (hstored : hostMatches executorState (some hostName) = true →
      SlashFree request.executorID ∧ HostStored pre request.ns request.executorID hostName s)
    (h : storeHeartbeat pre order request heartbeatTime executorState fate s = (result, s')) :
    s' = s ∨ Complete pre request.ns request.executorID hostName s' := by
  rcases storeHeartbeat_cases h with ⟨hsame, -⟩ | ⟨unchanged, reportedShards, -, happlied⟩
  · exact .inl hsame
  have hput : ∀ key value, Op.put key value ∈ heartbeatOps pre request.ns order request.executorID
      (newHeartbeat request heartbeatTime executorState) reportedShards → s'.get key = some ⟨value, s.revision + 1⟩ := by
    intro key value hmem
    refine happlied.get_of_put ?_
    split
    · exact hmem
    · exact List.mem_append_left _ hmem
  refine .inr ⟨?_, ?_⟩
  · rw [hput _ (.time heartbeatTime) (by simp [heartbeatOps, newHeartbeat])]
    rfl
  · cases hmatches : hostMatches executorState (some hostName) with
    | false =>
      have hwritten : (newHeartbeat request heartbeatTime executorState).hostMetadata =
          some ⟨jsonString (hostname.normalize hostName)⟩ := by
        simp [newHeartbeat, hhost, hmatches, normalizeHostMetadata]
      refine ⟨⟨jsonString (hostname.normalize hostName)⟩, ?_, validUtf8_iff.mp hvalid⟩
      rw [hostMetadataAt, hput _ (.hostMetadata ⟨jsonString (hostname.normalize hostName)⟩)
        (by simp [heartbeatOps, hwritten])]
      rfl
    | true =>
      obtain ⟨hid, host, hbefore, hname⟩ := hstored hmatches
      refine ⟨host, ?_, hname⟩
      rw [← hbefore, hostMetadataAt, hostMetadataAt, get_of_heartbeat happlied
        (executorKey_ne_version _ _)]
      intro value hmem
      have hnone : (newHeartbeat request heartbeatTime executorState).hostMetadata = none := by
        simp [newHeartbeat, hhost, hmatches]
      rcases put_mem_heartbeatOps hmem with
        ⟨name, text, -, hkey, -⟩ | ⟨hkey, -⟩ | ⟨hkey, -⟩ | ⟨hkey, -⟩ | ⟨host, -, -, hsome⟩
      · exact buildExecutorKey_ne_buildMetadataKey hid (by trivial) _ _ hkey
      · exact absurd (buildExecutorKey_inj (by trivial) (by trivial) hkey).2 nofun
      · exact absurd (buildExecutorKey_inj (by trivial) (by trivial) hkey).2 nofun
      · exact absurd (buildExecutorKey_inj (by trivial) (by trivial) hkey).2 nofun
      · rw [hnone] at hsome
        cases hsome

theorem recordShardStatistics_applies [ExpFloat64 F] (cfg : handler.Config) (order : RangeOrder)
    (request : ExecutorHeartbeatRequest F) (assignedState : Option AssignedState)
    (previousStats : Map String (ShardStatistics F)) (now : Time) (fate : Fate) (s : Store (Value F)) :
    Applies pre request.ns s
      (handler.recordShardStatistics pre cfg order request assignedState previousStats now fate s) := by
  generalize hstore : handler.recordShardStatistics pre cfg order request assignedState previousStats now fate s = s'
  rcases recordShardStatistics_cases hstore with hsame | ⟨assigned, updatedStats, -, -, -, happlied⟩
  · exact .inl hsame
  · exact .inr ⟨_, List.forall_mem_singleton.mpr (.statistics _ _), happlied⟩

end Heartbeat

/-- What holds while the executor is not deleted under a heartbeat: its vital
keys are complete or absent, and so they are for every heartbeat in progress
that will leave its host name out. -/
structure Inv (pre ns executorID : String) (hostName : Bytes) (sys : System F) : Prop where
  ops : sys.writers.WriteOps pre ns
  requests : ∀ call ∈ sys.calls, call.request.ns = ns ∧ call.request.executorID = executorID ∧
    call.request.hostName = some hostName
  vital : Absent pre ns executorID sys.store ∨ Complete pre ns executorID hostName sys.store
  omitted : ∀ call ∈ sys.calls, call.stored = false → hostMatches call.executorState (some hostName) = true →
    SlashFree executorID ∧ (call.deleted = true ∨ hasHeartbeat pre ns sys.store executorID = true)

namespace Inv

theorem initial : Inv pre ns executorID hostName (heartbeats.initial : System F) :=
  ⟨List.forall_mem_nil _, List.forall_mem_nil _, .inl fun _ _ => Store.get_empty _, List.forall_mem_nil _⟩

variable {sys : System F} (h : Inv pre ns executorID hostName sys)

include h

theorem complete (hheartbeat : hasHeartbeat pre ns sys.store executorID = true) :
    Complete pre ns executorID hostName sys.store := by
  rcases h.vital with habsent | hcomplete
  · rw [hasHeartbeat, habsent .heartbeat (by decide)] at hheartbeat
    cases hheartbeat
  · exact hcomplete

/-- Heartbeats in progress keep an eye on the keys they rely on. -/
theorem observe {call : Call F} (hcall : call ∈ sys.calls) (s' : Store (Value F)) :
    (call.observe pre ns sys.store s').stored = false →
      hostMatches (call.observe pre ns sys.store s').executorState (some hostName) = true →
      SlashFree executorID ∧ ((call.observe pre ns sys.store s').deleted = true ∨
        hasHeartbeat pre ns s' executorID = true) := by
  intro hstored hmatches
  obtain ⟨hid, hkept⟩ := h.omitted call hcall hstored hmatches
  refine ⟨hid, ?_⟩
  dsimp only [Call.observe]
  rw [(h.requests call hcall).2.1]
  rcases hkept with hdeleted | hheartbeat
  · rw [hdeleted]
    exact .inl rfl
  · rw [hheartbeat]
    cases hasHeartbeat pre ns s' executorID with
    | true => exact .inr rfl
    | false => exact .inl (Bool.or_true _)

/-- A step that completes, keeps or removes the vital keys keeps the invariant. -/
theorem after {w : Writers F} {calls : List (Call F)} (hops : w.WriteOps pre ns)
    (hvital : Absent pre ns executorID w.store ∨ Complete pre ns executorID hostName w.store)
    (hcalls : ∀ call ∈ calls, call ∈ sys.calls ∨ call.stored = true ∧ ∃ before ∈ sys.calls, call.request = before.request) :
    Inv pre ns executorID hostName (sys.after pre ns w calls) := by
  refine ⟨hops, ?_, hvital, ?_⟩
  · intro call hmem
    obtain ⟨before, hbefore, rfl⟩ := List.mem_map.mp hmem
    rcases hcalls before hbefore with hold | ⟨-, old, hold, hrequest⟩
    · exact h.requests before hold
    · dsimp only [Call.observe]
      rw [hrequest]
      exact h.requests old hold
  · intro call hmem hstored hmatches
    obtain ⟨before, hbefore, rfl⟩ := List.mem_map.mp hmem
    rcases hcalls before hbefore with hold | ⟨hdone, -⟩
    · exact h.observe hold w.store hstored hmatches
    · rw [Call.observe, hdone] at hstored
      cases hstored

variable [DecidableEq F]

theorem vital_of_applies {s' : Store (Value F)} (happlies : Applies pre ns sys.store s') :
    Absent pre ns executorID s' ∨ Complete pre ns executorID hostName s' := by
  rcases heartbeats.vital_of_applies happlies with hsame | habsent
  · rcases h.vital with habsent | hcomplete
    · exact .inl fun kt hkt => (hsame kt hkt).trans (habsent kt hkt)
    · obtain ⟨host, hstored, hname⟩ := hcomplete.host
      refine .inr ⟨?_, host, ?_, hname⟩
      · rw [hsame .heartbeat (by decide)]
        exact hcomplete.heartbeat
      · rw [← hstored, hostMetadataAt, hostMetadataAt, hsame .hostMetadata (by decide)]
  · exact .inl habsent

variable [Float64 F] [ExpFloat64 F] [Encoding F] {sys' : System F}

theorem step (hne : hostName ≠ []) (hvalid : ValidUtf8 (hostname.normalize hostName)) {label : Label F}
    (hreports : Reports executorID hostName label) (hfresh : NotDeletedSinceRead sys label)
    (hstep : heartbeats.step pre ns label sys = some sys') : Inv pre ns executorID hostName sys' := by
  cases label with
  | read registry request heartbeatTime =>
    dsimp only [heartbeats.step] at hstep
    obtain ⟨rfl, hhost⟩ := hreports
    split at hstep
    · rename_i hns
      subst hns
      split at hstep
      · cases hstep
        exact h
      · rename_i executorState hread
        cases hstep
        refine { h with
          requests := transition.forall_mem_concat h.requests ⟨rfl, rfl, hhost⟩
          omitted := transition.forall_mem_concat h.omitted ?_ }
        intro _ hmatches
        obtain ⟨hid, host, hstored, -⟩ := stored_of_hostMatches hread hne hmatches
        refine ⟨hid, .inr ?_⟩
        rcases h.vital with habsent | hcomplete
        · rw [hostMetadataAt, habsent .hostMetadata (by decide)] at hstored
          cases hstored
        · exact hcomplete.heartbeat
    · cases hstep
  | store i order fate =>
    dsimp only [heartbeats.step] at hstep
    split at hstep
    · cases hstep
    · rename_i call hcall
      have hmem := List.mem_of_getElem? hcall
      obtain ⟨hns, hid, hhost⟩ := h.requests call hmem
      split at hstep
      · cases hstep
      · rename_i hnotStored
        have hkept : hostMatches call.executorState (some hostName) = true →
            SlashFree call.request.executorID ∧
              HostStored pre call.request.ns call.request.executorID hostName sys.store := by
          intro hmatches
          obtain ⟨hslash, hdeleted | hheartbeat⟩ := h.omitted call hmem (by simpa using hnotStored) hmatches
          · rw [hfresh call hcall] at hdeleted
            cases hdeleted
          · rw [hns, hid]
            exact ⟨hslash, (h.complete hheartbeat).host⟩
        have hvital : ∀ {result s'}, storeHeartbeat pre order call.request call.heartbeatTime call.executorState fate
            sys.store = (result, s') → Absent pre ns executorID s' ∨ Complete pre ns executorID hostName s' := by
          intro result s' hstore
          rcases complete_of_storeHeartbeat hvalid hhost hkept hstore with rfl | hcomplete
          · exact h.vital
          · rw [hns, hid] at hcomplete
            exact .inr hcomplete
        split at hstep
        · rename_i hstore
          cases hstep
          exact h.after h.ops (hvital hstore) fun call' hmem' => .inl (List.mem_of_mem_eraseIdx hmem')
        · rename_i hstore
          cases hstep
          refine h.after h.ops (hvital hstore) fun call' hmem' => ?_
          rcases List.mem_or_eq_of_mem_set hmem' with hold | rfl
          · exact .inl hold
          · exact .inr ⟨rfl, call, hmem, rfl⟩
  | statistics i cfg order fate =>
    dsimp only [heartbeats.step] at hstep
    split at hstep
    · cases hstep
    · rename_i call hcall
      obtain ⟨hns, -⟩ := h.requests call (List.mem_of_getElem? hcall)
      split at hstep
      · cases hstep
        refine h.after h.ops (h.vital_of_applies ?_) fun call' hmem' => .inl (List.mem_of_mem_eraseIdx hmem')
        rw [← hns]
        exact heartbeats.recordShardStatistics_applies ..
      · cases hstep
  | write label =>
    obtain ⟨w, hw, rfl⟩ := Option.map_eq_some_iff.mp hstep
    obtain ⟨happlies, hops⟩ := write_applies h.ops hreports hw
    exact h.after hops (h.vital_of_applies happlies) fun call hmem => .inl hmem

end Inv

/-- Along every run in which no heartbeat is stored after its executor was
deleted under it, a stored heartbeat comes with the normalized host name; so
the executor is not assignable while that host is drained. -/
theorem stored_host_of_run [Float64 F] [ExpFloat64 F] [DecidableEq F] [Encoding F] (pre ns executorID : String)
    (hostName : Bytes) (hne : hostName ≠ []) (hvalid : ValidUtf8 (hostname.normalize hostName)) (sys : System F)
    (hrun : transition.Run (step pre ns)
      (fun sys label => Reports executorID hostName label ∧ NotDeletedSinceRead sys label) initial sys) :
    (hasHeartbeat pre ns sys.store executorID = true → HostStored pre ns executorID hostName sys.store) ∧
    ∀ order state, getState pre ns order sys.store = .ok state → ∀ host, utf8 host = hostname.normalize hostName →
      host ∈ state.drainedHosts → ∀ staleExecutors, ¬state.Assignable staleExecutors executorID := by
  have hinv : Inv pre ns executorID hostName sys :=
    hrun.invariant _ (fun _ _ _ h hmeets hstep => h.step hne hvalid hmeets.1 hmeets.2 hstep) .initial
  refine ⟨fun hheartbeat => (hinv.complete hheartbeat).host, ?_⟩
  rintro order state hstate host hhost hdrained staleExecutors ⟨e, he, hassignable⟩
  obtain ⟨heartbeat, hlookup, rfl⟩ := Option.map_eq_some_iff.mp he
  rw [(getState_entry hstate executorID).1] at hlookup
  obtain ⟨executorData, hstored, rfl⟩ := Option.map_eq_some_iff.mp hlookup
  have hreads : Reads pre ns sys.store executorID executorData := reads_of_getState hstate hstored
  unfold Executor.isAssignable at hassignable
  split at hassignable
  · cases hassignable
  rename_i hactive
  rw [not_or, not_not] at hactive
  obtain ⟨hactive, hnotDrained⟩ := hactive
  have hcomplete : Complete pre ns executorID hostName sys.store := by
    rcases hinv.vital with habsent | hcomplete
    · have hstatus : executorData.status = .active := hactive
      rw [hreads.status, statusAt, habsent .status (by decide)] at hstatus
      cases hstatus
    · exact hcomplete
  obtain ⟨storedHost, hmetadata, hname⟩ := hcomplete.host
  have hhostname : (heartbeatFromParsed executorData).hostname = host := by
    have hfield : executorData.hostMetadata = some storedHost := hreads.hostMetadata.trans hmetadata
    have hsame : (heartbeatFromParsed executorData).hostMetadata = executorData.hostMetadata := rfl
    rw [HeartbeatState.hostname, hsame, hfield]
    rw [← jsonString_utf8 host, hhost, ← hname, jsonString_utf8]
  refine hnotDrained ?_
  dsimp only [NamespaceState.newExecutor]
  rw [hhostname, Bool.and_eq_true, bne_iff_ne]
  refine ⟨?_, decide_eq_true hdrained⟩
  rintro rfl
  exact hne (hostname.normalize_eq_nil_iff.mp hhost.symm)

section Examples

/-- The executor of the examples sends a heartbeat from host `a`. -/
def arrives (heartbeatTime : Time) : Label ExactFloat :=
  .read exampleRegistry (requestOf "a@1" (utf8 "a")) heartbeatTime

/-- Host `a` is drained and the executor sends its first heartbeat. -/
def drainedAndRegistered : List (Label ExactFloat) :=
  [.write (.drainHosts .stored 128 [⟨"a", 1, "", ""⟩] 1), .write (.commitBatch 0 .delivered),
    arrives 10, .store 0 .stored .delivered, .statistics 0 exampleConfig .stored .delivered]

/-- The next heartbeat leaves out the host name it has just read. -/
def heartbeatAgain : List (Label ExactFloat) :=
  drainedAndRegistered ++ [arrives 20, .store 0 .stored .delivered]

theorem heartbeatAgain_host_stored : ∃ sys : System ExactFloat,
    transition.Run (step "shards" "ns")
      (fun sys label => Reports "a@1" (utf8 "a") label ∧ NotDeletedSinceRead sys label) initial sys ∧
    hasHeartbeat "shards" "ns" sys.store "a@1" = true ∧ HostStored "shards" "ns" "a@1" (utf8 "a") sys.store ∧
    ∀ order state, getState "shards" "ns" order sys.store = .ok state → "a" ∈ state.drainedHosts →
      ∀ staleExecutors, ¬state.Assignable staleExecutors "a@1" := by
  have hrun : (heartbeatAgain.foldlM (fun sys label =>
      if decide (Reports "a@1" (utf8 "a") label ∧ NotDeletedSinceRead sys label) then step "shards" "ns" label sys
      else none) initial).map (hasHeartbeat "shards" "ns" ·.store "a@1") = some true := by decide +kernel
  obtain ⟨sys, hfold, hheartbeat⟩ := Option.map_eq_some_iff.mp hrun
  have hreached : transition.Run (step "shards" "ns")
      (fun sys label => Reports "a@1" (utf8 "a") label ∧ NotDeletedSinceRead sys label) initial sys :=
    transition.run_of_foldlM _ (fun _ _ => of_decide_eq_true) hfold
  obtain ⟨hstored, hassignable⟩ := stored_host_of_run "shards" "ns" "a@1" (utf8 "a") (by decide) (by decide +kernel)
    sys hreached
  exact ⟨sys, hreached, hheartbeat, hstored hheartbeat,
    fun order state hstate hdrained => hassignable order state hstate "a" (by decide +kernel) hdrained⟩

/-- The leader deletes the executor between the read of its next heartbeat and
the write. -/
def deletedMeanwhile : List (Label ExactFloat) :=
  drainedAndRegistered ++ [arrives 20, .write (.deleteExecutors 128 ["a@1"] nopGuard),
    .write (.commitBatch 0 .delivered), .store 0 .stored .delivered]

/-- The executor has a heartbeat without a host, and is assignable although
host `a` is drained. -/
def lostHost (sys : System ExactFloat) : Bool :=
  hasHeartbeat "shards" "ns" sys.store "a@1" && (hostMetadataAt "shards" "ns" sys.store "a@1").isNone &&
    match getState "shards" "ns" .stored sys.store with
    | .ok state => decide ("a" ∈ state.drainedHosts) && decide ("a@1" ∈ state.assignableExecutorIDs ∅)
    | .error _ => false

/-- An executor that always reports host `a` can end up with a stored heartbeat
and no host name, and assignable although its host is drained. -/
theorem deletedMeanwhile_host_lost : ∃ sys : System ExactFloat,
    transition.Run (step "shards" "ns") (fun _ label => Reports "a@1" (utf8 "a") label) initial sys ∧
    hasHeartbeat "shards" "ns" sys.store "a@1" = true ∧ hostMetadataAt "shards" "ns" sys.store "a@1" = none ∧
    ∃ state, getState "shards" "ns" .stored sys.store = .ok state ∧ "a" ∈ state.drainedHosts ∧
      state.Assignable ∅ "a@1" := by
  have hrun : (deletedMeanwhile.foldlM (fun sys label =>
      if decide (Reports "a@1" (utf8 "a") label) then step "shards" "ns" label sys else none) initial).map
        lostHost = some true := by decide +kernel
  obtain ⟨sys, hfold, hlost⟩ := Option.map_eq_some_iff.mp hrun
  refine ⟨sys, transition.run_of_foldlM _ (fun _ _ => of_decide_eq_true) hfold, ?_⟩
  unfold lostHost at hlost
  rw [Bool.and_eq_true, Bool.and_eq_true, Option.isNone_iff_eq_none] at hlost
  obtain ⟨⟨hheartbeat, hnone⟩, hstate⟩ := hlost
  refine ⟨hheartbeat, hnone, ?_⟩
  split at hstate
  · rename_i state hread
    rw [Bool.and_eq_true, decide_eq_true_iff, decide_eq_true_iff, NamespaceState.mem_assignableExecutorIDs] at hstate
    exact ⟨state, hread, hstate⟩
  · cases hstate

end Examples

end heartbeats
