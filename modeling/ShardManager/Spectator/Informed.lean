import ShardManager.Cache.Delivery
import ShardManager.Spectator.WatchLoop

open golang etcd etcdkeys store executorstore cache handler

namespace spectating

open etcdtypes (Value Encoding)
open spectatorclient stream transition

variable {F : Type}

/-- One namespace from its store to a spectator, which makes all its streams to
the same replica. The responses are kept as `Sent`, with the revision they were
made from. -/
structure System (F : Type) where
  server : stream.System F
  client : Spectator
  /-- The responses on the stream that the spectator has not received. -/
  channel : List Sent
  /-- The response that the watch loop is handling, and the one before that its
  view was made from, kept for reasoning only. -/
  taken : Option Sent
  viewed : Option Sent

def initial (enabled : Bool) : System F := ⟨stream.initial, .initial enabled, [], none, none⟩

inductive Label (F : Type) where
  | server (label : stream.Label F)
  /-- The spectator makes a new stream. -/
  | create
  /-- `Recv` returns the next response. -/
  | receive
  | client (label : Spectator.Label)

/-- The last response made for the current stream. -/
def pushed (server : stream.System F) : Option Sent :=
  match server.subscriber with
  | .sending sent => some sent
  | _ => server.sent

section Step

variable (pre ns : String) [Float64 F] [DecidableEq F] [Encoding F]

def step : Label F → System F → Option (System F)
  | .server .subscribe, _ => none
  -- It does not matter to the spectator when `Send` returns.
  | .server (.snapshot order), sys =>
    (stream.step pre ns (.snapshot order) sys.server).map fun server =>
      { sys with server, channel := sys.channel ++ (pushed server).toList }
  | .server label, sys => (stream.step pre ns label sys.server).map fun server => { sys with server }
  -- Whatever is left of the stream before is not received any more.
  | .create, sys =>
    match sys.client.watch with
    | .creatingStream =>
      ((stream.step pre ns .close sys.server).bind (stream.step pre ns .subscribe)).bind fun server =>
        (Spectator.step (.watch .next) sys.client).map fun client => { sys with server, client, channel := [] }
    | _ => none
  | .receive, sys =>
    match sys.channel with
    | sent :: channel =>
      (proto.delivered sent.response).bind fun response =>
        (Spectator.step (.watch (.received response)) sys.client).map fun client =>
          { sys with client, channel, taken := some sent }
    | [] => none
  | .client label, sys =>
    match sys.client.watch, label with
    | .creatingStream, .watch .next => none
    | _, .watch (.received _) => none
    | .handling _, .watch .next =>
      (Spectator.step label sys.client).map fun client => { sys with client, taken := none, viewed := sys.taken }
    | _, _ => (Spectator.step label sys.client).map fun client => { sys with client }

def Label.Proper : Label F → Prop
  | .server label => label.Proper
  | _ => True

instance (label : Label F) : Decidable label.Proper :=
  match label with
  | .server label => inferInstanceAs (Decidable label.Proper)
  | .create | .receive | .client _ => inferInstanceAs (Decidable True)

abbrev SpectatingRun : System F → System F → Prop := Run (step pre ns) fun _ label => label.Proper

end Step

section Tells

variable [Encoding F] {pre ns : String} {s : Store (Value F)} {response : WatchNamespaceStateResponse}

/-- What a spectator decides by its view is what the store says: a shard is
refused if it is drained, an owner has the shard in its record and comes with
the stored metadata, and a miss is a shard without an owner. -/
structure Tells (pre ns : String) (s : Store (Value F)) (view : View) : Prop where
  drained : ∀ shardKey, view.decision shardKey = .drained ↔ DrainedAt pre ns s shardKey
  owner : ∀ shardKey owner, view.decision shardKey = .owner owner →
    (∃ state, RecordAt pre ns s owner.executorID state ∧ shardKey ∈ state.assignedShards) ∧
    ∀ name value, owner.metadata.lookup name = some value ↔ MetadataAt pre ns s owner.executorID name value
  miss : ∀ shardKey, view.decision shardKey = .miss →
    ∀ executorID state, RecordAt pre ns s executorID state → shardKey ∉ state.assignedShards

theorem decision_cases (view : View) (shardKey : String) :
    shardKey ∈ view.drainedShards ∧ view.decision shardKey = .drained ∨
    shardKey ∉ view.drainedShards ∧
      ((∃ owner, view.shardToOwner.lookup shardKey = some owner ∧ view.decision shardKey = .owner owner) ∨
        view.shardToOwner.lookup shardKey = none ∧ view.decision shardKey = .miss) := by
  unfold View.decision
  by_cases hdrained : shardKey ∈ view.drainedShards
  · exact .inl ⟨hdrained, if_pos hdrained⟩
  · rw [if_neg hdrained]
    cases view.shardToOwner.lookup shardKey with
    | none => exact .inr ⟨hdrained, .inr ⟨rfl, rfl⟩⟩
    | some owner => exact .inr ⟨hdrained, .inl ⟨owner, rfl, rfl⟩⟩

theorem mem_drainedShards_handleResponse {shardKey : String} :
    shardKey ∈ (handleResponse response).drainedShards ↔ shardKey ∈ response.drainedShardKeys := by
  rw [handleResponse, Map.mem_ofList, List.map_map]
  exact (congrArg (shardKey ∈ ·) (List.map_id _)).to_iff

/-- The owner of a shard is an executor that the response lists it for. -/
theorem listed_of_lookup {shardKey : String} {owner : spectatorclient.ShardOwner}
    (h : (handleResponse response).shardToOwner.lookup shardKey = some owner) :
    ∃ entry ∈ response.executors, shardKey ∈ entry.assignedShards ∧ owner = ⟨entry.executorID, entry.metadata⟩ := by
  obtain ⟨entry, hentry, hmem⟩ := List.mem_flatMap.mp (Map.mem_of_lookup_ofList h)
  obtain ⟨shard, hshard, heq⟩ := List.mem_map.mp hmem
  cases heq
  exact ⟨entry, hentry, hshard, rfl⟩

theorem not_listed_of_lookup {shardKey : String}
    (h : (handleResponse response).shardToOwner.lookup shardKey = none) :
    ∀ entry ∈ response.executors, shardKey ∉ entry.assignedShards := by
  intro entry hentry hshard
  refine AList.lookup_eq_none.mp h (Map.mem_ofList.mpr (List.mem_map.mpr
    ⟨(shardKey, ⟨entry.executorID, entry.metadata⟩), ?_, rfl⟩))
  exact List.mem_flatMap.mpr ⟨entry, hentry, List.mem_map.mpr ⟨shardKey, hshard, rfl⟩⟩

theorem tells_of_shows (h : Shows pre ns s response) : Tells pre ns s (handleResponse response) := by
  constructor
  · intro shardKey
    rw [← h.drained, ← mem_drainedShards_handleResponse]
    rcases decision_cases (handleResponse response) shardKey with
      ⟨hmem, heq⟩ | ⟨hmem, ⟨owner, -, heq⟩ | ⟨-, heq⟩⟩
    · exact iff_of_true heq hmem
    · exact iff_of_false (by rw [heq]; nofun) hmem
    · exact iff_of_false (by rw [heq]; nofun) hmem
  · intro shardKey owner howner
    rcases decision_cases (handleResponse response) shardKey with
      ⟨-, heq⟩ | ⟨-, ⟨owner', hlookup, heq⟩ | ⟨-, heq⟩⟩
    · cases heq.symm.trans howner
    · cases heq.symm.trans howner
      obtain ⟨entry, hentry, hshard, rfl⟩ := listed_of_lookup hlookup
      obtain ⟨state, hrecord⟩ := (h.executors entry.executorID).mp ⟨entry, hentry, rfl⟩
      exact ⟨⟨state, hrecord, (h.shards entry hentry state hrecord shardKey).mp hshard⟩, h.metadata entry hentry⟩
    · cases heq.symm.trans howner
  · intro shardKey hmiss executorID state hrecord hshard
    rcases decision_cases (handleResponse response) shardKey with
      ⟨-, heq⟩ | ⟨-, ⟨owner, -, heq⟩ | ⟨hlookup, -⟩⟩
    · cases heq.symm.trans hmiss
    · cases heq.symm.trans hmiss
    · obtain ⟨entry, hentry, rfl⟩ := (h.executors executorID).mpr ⟨state, hrecord⟩
      exact not_listed_of_lookup hlookup entry hentry ((h.shards entry hentry state hrecord shardKey).mpr hshard)

end Tells

/-- A cache that has loaded nothing tells nothing. -/
theorem handleResponse_unloaded (order : RangeOrder) : handleResponse (watchResponse order newShardCache) = ⟨∅, ∅⟩ := by
  have hrange : order.range "toTypesExecutorShardAssignments" newShardCache.executorToShards = [] :=
    List.eq_nil_iff_forall_not_mem.mpr fun entry hentry => by cases RangeOrder.mem_range_iff.mp hentry
  rw [watchResponse, toTypesExecutorShardAssignments, hrange]
  rfl

section Client

variable {client client' : Spectator}

/-- The response that the watch loop is handling. -/
def handled : WatchState → Option WatchNamespaceStateResponse
  | .handling response => some response
  | _ => none

/-- Only handling a response changes the view. -/
theorem client_frame {label : Spectator.Label} (hreceived : ∀ response, label ≠ .watch (.received response))
    (hhandling : ∀ response, client.watch = .handling response → label ≠ .watch .next)
    (h : Spectator.step label client = some client') :
    client'.view = client.view ∧ handled client'.watch = handled client.watch := by
  cases label with
  | watch label =>
    change client.advance client.watch label = some client' at h
    generalize client.watch = watch at h hhandling
    unfold Spectator.advance at h
    split at h
    case h_1 | h_2 | h_8 | h_18 =>
      cases h
      unfold Spectator.ifEnabled
      split <;> exact ⟨rfl, rfl⟩
    case h_5 | h_11 | h_14 =>
      cases h
      unfold Spectator.unlessCancelled
      split <;> exact ⟨rfl, rfl⟩
    case h_7 | h_17 =>
      split at h
      · cases h
        exact ⟨rfl, rfl⟩
      · cases h
    case h_3 | h_4 | h_6 | h_10 | h_13 | h_15 | h_16 =>
      cases h
      exact ⟨rfl, rfl⟩
    case h_9 response => exact absurd rfl (hreceived response)
    case h_12 response => exact absurd rfl (hhandling response rfl)
    case h_19 => cases h
  | stop =>
    dsimp only [Spectator.step] at h
    split at h
    case h_1 | h_2 =>
      cases h
      exact ⟨rfl, rfl⟩
    case h_3 =>
      split at h
      · cases h
        exact ⟨rfl, rfl⟩
      · cases h
    case h_4 => cases h
  | getShardOwner =>
    cases h
    exact ⟨rfl, rfl⟩
  | setEnabled enabled =>
    cases h
    exact ⟨rfl, rfl⟩

end Client

section Runs

variable [Float64 F] [DecidableEq F] [Encoding F] {pre ns : String} {sys sys' : System F}
  {before after : stream.System F}

/-- Only a snapshot makes a response. -/
theorem pushed_of_step {label : stream.Label F} (hlabel : ∀ order, label ≠ .snapshot order)
    (h : stream.step pre ns label before = some after) : pushed after = pushed before ∨ pushed after = none := by
  cases label with
  | snapshot order => exact absurd rfl (hlabel order)
  | write label =>
    obtain ⟨writers, -, rfl⟩ := Option.map_eq_some_iff.mp h
    exact .inl rfl
  | miss =>
    cases h
    exact .inl rfl
  | close =>
    cases h
    exact .inr rfl
  | _ =>
    dsimp only [stream.step] at h
    repeat' split at h
    all_goals first
      | contradiction
      | (cases h; exact .inl rfl)
      | (cases h; exact .inl (by simp only [pushed, *]))

/-- The responses from the one that the view was made from to the last one. -/
def System.messages (sys : System F) : List Sent := sys.viewed.toList ++ sys.taken.toList ++ sys.channel

/-- What holds along every run. -/
structure Inv (pre ns : String) (sys : System F) : Prop where
  run : StreamRun pre ns stream.initial sys.server
  reads : ∀ sent ∈ sys.messages, SentFromRead (ReadBefore pre ns sys.server) sent
  bounded : ∀ sent ∈ sys.messages, sent.revision ≤ sys.server.cache.lastRevision
  sorted : sys.messages.Pairwise fun sent sent' => sent.revision ≤ sent'.revision
  taken : sys.taken.map Sent.response = handled sys.client.watch
  view : sys.client.view = (sys.viewed.map fun sent => handleResponse sent.response).getD ⟨∅, ∅⟩
  last : ∀ sent, pushed sys.server = some sent → sys.messages.getLast? = some sent

theorem inv_initial (enabled : Bool) : Inv pre ns (initial enabled : System F) where
  run := .refl
  reads _ h := absurd h List.not_mem_nil
  bounded _ h := absurd h List.not_mem_nil
  sorted := .nil
  taken := rfl
  view := rfl
  last _ h := by cases h

/-- The responses stay what they are while the server moves on. -/
theorem messages_of_run (h : Inv pre ns sys) (hrun : StreamRun pre ns sys.server after) :
    (∀ sent ∈ sys.messages, SentFromRead (ReadBefore pre ns after) sent) ∧
      ∀ sent ∈ sys.messages, sent.revision ≤ after.cache.lastRevision := by
  refine ⟨fun sent hsent => ?_, fun sent hsent => ?_⟩
  · obtain ⟨order, c, hc, heq⟩ := h.reads sent hsent
    refine ⟨order, c, hc.mono ?_, heq⟩
    rintro state ⟨sys₀, hrun₀, hrun', hread⟩
    exact ⟨sys₀, hrun₀, hrun'.trans hrun, hread⟩
  · exact (h.bounded sent hsent).trans (later_of_run (inv_of_run h.run).store hrun).1

/-- A snapshot adds the newest response. -/
theorem Inv.snapshot (h : Inv pre ns sys) {order : RangeOrder}
    (hstep : stream.step pre ns (.snapshot order) sys.server = some after) :
    Inv pre ns { sys with server := after, channel := sys.channel ++ (pushed after).toList } := by
  have hrun : StreamRun pre ns sys.server after := .single ⟨.snapshot order, trivial, hstep⟩
  obtain ⟨hreads, hbounded⟩ := messages_of_run h hrun
  have hheld := held_of_run (h.run.trans hrun)
  obtain ⟨sent, hpushed, hsending, hrevision⟩ : ∃ sent, pushed after = some sent ∧
      after.subscriber = .sending sent ∧ sent.revision = after.cache.lastRevision := by
    dsimp only [stream.step] at hstep
    split at hstep
    · cases hstep
      exact ⟨_, rfl, rfl, rfl⟩
    · cases hstep
  have hmessages : sys.viewed.toList ++ sys.taken.toList ++ (sys.channel ++ (pushed after).toList) =
      sys.messages ++ [sent] := by
    rw [hpushed, System.messages, List.append_assoc, List.append_assoc, List.append_assoc]
    rfl
  refine ⟨h.run.trans hrun, ?_, ?_, ?_, h.taken, h.view, ?_⟩
  all_goals
    dsimp only [System.messages]
    rw [hmessages]
  · exact transition.forall_mem_concat hreads (hheld.sending hsending)
  · exact transition.forall_mem_concat hbounded hrevision.le
  · refine List.pairwise_append.mpr ⟨h.sorted, List.pairwise_singleton .., fun old hold new hnew => ?_⟩
    cases List.mem_singleton.mp hnew
    exact hrevision ▸ hbounded old hold
  · intro sent' hsent'
    rw [List.getLast?_concat, ← hpushed, hsent']

/-- The responses may be passed on or lost. -/
theorem Inv.passed (h : Inv pre ns sys) (hrun : StreamRun pre ns sys.server sys'.server)
    (hmessages : sys'.messages.Sublist sys.messages) (htaken : sys'.taken.map Sent.response = handled sys'.client.watch)
    (hview : sys'.client.view = (sys'.viewed.map fun sent => handleResponse sent.response).getD ⟨∅, ∅⟩)
    (hlast : ∀ sent, pushed sys'.server = some sent → sys'.messages.getLast? = some sent) : Inv pre ns sys' where
  run := h.run.trans hrun
  reads sent hsent := (messages_of_run h hrun).1 sent (hmessages.subset hsent)
  bounded sent hsent := (messages_of_run h hrun).2 sent (hmessages.subset hsent)
  sorted := h.sorted.sublist hmessages
  taken := htaken
  view := hview
  last := hlast

theorem Inv.server (h : Inv pre ns sys) {label : stream.Label F} (hproper : label.Proper)
    (hlabel : ∀ order, label ≠ .snapshot order) (hstep : stream.step pre ns label sys.server = some after) :
    Inv pre ns { sys with server := after } := by
  refine h.passed (.single ⟨label, hproper, hstep⟩) (.refl _) h.taken h.view fun sent hsent => ?_
  rcases pushed_of_step hlabel hstep with heq | hnone
  · exact h.last sent (heq ▸ hsent)
  · cases hnone.symm.trans hsent

theorem Inv.create (h : Inv pre ns sys) (hstep : step pre ns .create sys = some sys') :
    Inv pre ns sys' ∧ sys'.viewed = sys.viewed := by
  dsimp only [step] at hstep
  split at hstep
  · rename_i hwatch
    obtain ⟨server, hserver, hclient⟩ := Option.bind_eq_some_iff.mp hstep
    obtain ⟨closed, hclose, hsubscribe⟩ := Option.bind_eq_some_iff.mp hserver
    obtain ⟨client, hnext, rfl⟩ := Option.map_eq_some_iff.mp hclient
    have hrun : StreamRun pre ns sys.server server :=
      .head ⟨.close, trivial, hclose⟩ (.single ⟨.subscribe, trivial, hsubscribe⟩)
    have hpushed : pushed server = none := by
      cases hclose
      cases hsubscribe
      rfl
    obtain ⟨hview, hhandled⟩ := client_frame (by rintro - ⟨⟩) (by rw [hwatch]; rintro - ⟨⟩) hnext
    refine ⟨h.passed hrun ?_ (h.taken.trans hhandled.symm) (hview.trans h.view) ?_, rfl⟩
    · dsimp only [System.messages]
      rw [List.append_nil]
      exact List.sublist_append_left _ _
    · intro sent hsent
      cases hpushed.symm.trans hsent
  · cases hstep

theorem Inv.receive (h : Inv pre ns sys) (hstep : step pre ns .receive sys = some sys') :
    Inv pre ns sys' ∧ sys'.viewed = sys.viewed := by
  dsimp only [step] at hstep
  split at hstep
  · rename_i sent channel hchannel
    rw [proto.delivered_eq, Option.bind_some] at hstep
    obtain ⟨client, hclient, rfl⟩ := Option.map_eq_some_iff.mp hstep
    obtain ⟨htaken, hwatch, hview⟩ : handled sys.client.watch = none ∧
        handled client.watch = some sent.response ∧ client.view = sys.client.view := by
      change sys.client.advance sys.client.watch (.received sent.response) = some client at hclient
      cases hwatch : sys.client.watch <;> rw [hwatch] at hclient <;> cases hclient
      exact ⟨rfl, rfl, rfl⟩
    have htaken : sys.taken = none := Option.map_eq_none_iff.mp (h.taken.trans htaken)
    -- The response moves from the stream to the watch loop.
    have hmessages : sys.viewed.toList ++ [sent] ++ channel = sys.messages := by
      rw [System.messages, htaken, hchannel, Option.toList_none, List.append_nil, List.append_assoc]
      rfl
    refine ⟨h.passed .refl ?_ hwatch.symm (hview.trans h.view) ?_, rfl⟩
    · exact hmessages ▸ .refl _
    · intro last hlast
      exact (congrArg List.getLast? hmessages).trans (h.last last hlast)
  · cases hstep

/-- The view after a step is as before or that of the response just handled. -/
theorem Inv.client (h : Inv pre ns sys) {label : Spectator.Label} (hstep : step pre ns (.client label) sys = some sys') :
    Inv pre ns sys' ∧ (sys'.viewed = sys.viewed ∨ sys'.viewed = sys.taken ∧ sys.taken ≠ none) := by
  dsimp only [step] at hstep
  split at hstep
  case h_1 | h_2 => cases hstep
  case h_3 response hwatch =>
    obtain ⟨client, hclient, rfl⟩ := Option.map_eq_some_iff.mp hstep
    obtain ⟨sent, htaken, hresponse⟩ := Option.map_eq_some_iff.mp (h.taken.trans (congrArg handled hwatch))
    change sys.client.advance sys.client.watch .next = some client at hclient
    rw [hwatch] at hclient
    cases hclient
    have hmessages : sys.messages = sys.viewed.toList ++ (sent :: sys.channel) := by
      rw [System.messages, htaken, List.append_assoc]
      rfl
    have hpassed : sys.taken.toList ++ [] ++ sys.channel = sent :: sys.channel := by
      rw [htaken]
      rfl
    refine ⟨h.passed .refl ?_ rfl ?_ ?_, .inr ⟨rfl, htaken ▸ Option.some_ne_none sent⟩⟩
    · change (sys.taken.toList ++ [] ++ sys.channel).Sublist sys.messages
      rw [hpassed, hmessages]
      exact List.sublist_append_right _ _
    · dsimp only
      rw [htaken, ← hresponse]
      rfl
    · intro last hlast
      change (sys.taken.toList ++ [] ++ sys.channel).getLast? = some last
      rw [hpassed, ← h.last last hlast, hmessages, List.getLast?_append_of_ne_nil _ (List.cons_ne_nil _ _)]
  case h_4 hreceived _ hhandling =>
    obtain ⟨client, hclient, rfl⟩ := Option.map_eq_some_iff.mp hstep
    obtain ⟨hview, hhandled⟩ := client_frame hreceived hhandling hclient
    exact ⟨h.passed .refl (.refl _) (h.taken.trans hhandled.symm) (hview.trans h.view) h.last, .inl rfl⟩

theorem Inv.step {label : Label F} (h : Inv pre ns sys) (hproper : label.Proper)
    (hstep : step pre ns label sys = some sys') :
    Inv pre ns sys' ∧ (sys'.viewed = sys.viewed ∨ sys'.viewed = sys.taken ∧ sys.taken ≠ none) := by
  cases label with
  | server label =>
    unfold spectating.step at hstep
    split at hstep
    case h_1 => cases hstep
    case h_2 heq =>
      cases heq
      obtain ⟨after, hafter, rfl⟩ := Option.map_eq_some_iff.mp hstep
      exact ⟨h.snapshot hafter, .inl rfl⟩
    case h_3 hsnapshot heq =>
      cases heq
      obtain ⟨after, hafter, rfl⟩ := Option.map_eq_some_iff.mp hstep
      exact ⟨h.server hproper hsnapshot hafter, .inl rfl⟩
    all_goals cases ‹Label.server label = _›
  | create => exact (h.create hstep).imp id .inl
  | receive => exact (h.receive hstep).imp id .inl
  | client label => exact h.client hstep

theorem inv_of_spectatingRun {enabled : Bool} (h : SpectatingRun pre ns (initial enabled) sys) : Inv pre ns sys :=
  h.invariant (Inv pre ns) (fun _ _ _ hinv hproper hstep => (hinv.step hproper hstep).1) (inv_initial enabled)

/-- The view only gets newer. -/
theorem viewed_of_run (hinv : Inv pre ns sys) (h : SpectatingRun pre ns sys sys') {sent : Sent}
    (hviewed : sys.viewed = some sent) : ∃ later, sys'.viewed = some later ∧ sent.revision ≤ later.revision := by
  have hkept := h.invariant
    (fun x => Inv pre ns x ∧ ∃ later, x.viewed = some later ∧ sent.revision ≤ later.revision) ?_
    ⟨hinv, sent, hviewed, le_rfl⟩
  · exact hkept.2
  rintro a label b ⟨ha, later, hlater, hle⟩ hproper hstep
  obtain ⟨hb, hsame | ⟨htaken, hne⟩⟩ := ha.step hproper hstep
  · exact ⟨hb, later, hsame.trans hlater, hle⟩
  · obtain ⟨taken, hsome⟩ := Option.ne_none_iff_exists'.mp hne
    refine ⟨hb, taken, htaken.trans hsome, hle.trans ?_⟩
    have hsorted := ha.sorted
    rw [System.messages, hlater, hsome, List.append_assoc] at hsorted
    exact List.rel_of_pairwise_cons hsorted List.mem_cons_self

/-- Nothing is pending between the store and the spectator. -/
structure Settled (sys : System F) : Prop where
  server : Quiescent sys.server
  channel : sys.channel = []
  taken : sys.taken = none

/-- Whatever writers, watches, refreshes, streams and the spectator do, in any
order, with streams that fail and are made again: the spectator knows nothing or
decides by one version of the store, as the store was at some point of the run.
It never goes back to an older version, and whenever nothing is pending it decides
by the store as it is. -/
theorem spectator_informed (pre ns : String) (enabled : Bool) (sys : System F)
    (hrun : SpectatingRun pre ns (initial enabled) sys) :
    (sys.client.view = ⟨∅, ∅⟩ ∨ ∃ server, StreamRun pre ns stream.initial server ∧
      StreamRun pre ns server sys.server ∧ sys.viewed.map Sent.revision = some server.store.revision ∧
      Tells pre ns server.store sys.client.view) ∧
    (∀ sys', SpectatingRun pre ns sys sys' → ∀ sent, sys.viewed = some sent →
      ∃ later, sys'.viewed = some later ∧ sent.revision ≤ later.revision) ∧
    (Settled sys → Tells pre ns sys.server.store sys.client.view) := by
  have hinv := inv_of_spectatingRun hrun
  refine ⟨?_, fun sys' hrun' sent hviewed => viewed_of_run hinv hrun' hviewed, fun hsettled => ?_⟩
  · cases hviewed : sys.viewed with
    | none =>
      left
      rw [hinv.view, hviewed]
      rfl
    | some sent =>
      have hmem : sent ∈ sys.messages := by
        rw [System.messages, hviewed]
        exact List.mem_cons_self
      have hview := hinv.view
      rw [hviewed] at hview
      obtain ⟨order, c, rfl | ⟨order', state, ⟨server, hrun₀, hrun', hread⟩, rfl⟩, rfl⟩ := hinv.reads sent hmem
      · exact .inl (hview.trans (handleResponse_unloaded order))
      · obtain ⟨hdescribes, -⟩ := getAssignmentState_describes hread
        refine .inr ⟨server, hrun₀, hrun', congrArg some hdescribes.revision, ?_⟩
        rw [hview]
        exact tells_of_shows (shows_watchResponse (inv_of_run hrun₀).store.bare hdescribes)
  · have hserver := inv_of_run hinv.run
    obtain ⟨sent, hsent, hle⟩ := hsettled.server.last_sent hserver.notified
    have hpushed : pushed sys.server = some sent := by
      rw [pushed, hsettled.server.subscriber]
      exact hsent
    have hlast := hinv.last sent hpushed
    rw [System.messages, hsettled.taken, hsettled.channel, List.append_nil, Option.toList_none, List.append_nil] at hlast
    have hviewed : sys.viewed = some sent := by
      cases hviewed : sys.viewed with
      | none =>
        rw [hviewed] at hlast
        cases hlast
      | some viewed =>
        rw [hviewed] at hlast
        exact hlast
    rw [hinv.view, hviewed]
    refine tells_of_shows (shows_of_read hserver.store.changed_pos ((held_of_run hinv.run).sent hsent) ?_)
    exact (hsettled.server.cached hserver.reported).trans hle

end Runs

section Examples

/-- The first stream of a spectator breaks. On the second one it receives an empty
response, before and after the cache has loaded the empty store, and then learns
of an owner and of a drained shard. -/
def reconnected : List (Label ExactFloat) :=
  let next : Label ExactFloat := .client (.watch .next)
  [next, next, .create, next, .client (.watch .failed), next, next, next, .create, next] ++
    (delivered.drop 1).map .server ++ (List.replicate 3 [.receive, next, next, next]).flatten

def isSettled (sys : System F) : Bool := isQuiescent sys.server && sys.channel.isEmpty && sys.taken.isNone

theorem settled_of_isSettled {sys : System F} (h : isSettled sys = true) : Settled sys := by
  rw [isSettled, Bool.and_eq_true, Bool.and_eq_true] at h
  exact ⟨quiescent_of_isQuiescent h.1.1, List.isEmpty_iff.mp h.1.2, Option.isNone_iff_eq_none.mp h.2⟩

def isOwner (executorID : String) : Decision → Bool
  | .owner owner => owner.executorID == executorID
  | _ => false

theorem reconnected_informed : ∃ sys : System ExactFloat, SpectatingRun "/shards" "orders" (initial true) sys ∧
    Settled sys ∧ isOwner "a" (sys.client.view.decision "1") = true ∧
    Tells "/shards" "orders" sys.server.store sys.client.view ∧ DrainedAt "/shards" "orders" sys.server.store "7" := by
  have heval : (reconnected.foldlM
      (fun sys label => if decide label.Proper then step "/shards" "orders" label sys else none) (initial true)).map
      (fun sys => isSettled sys && isOwner "a" (sys.client.view.decision "1") &&
        decide ("7" ∈ sys.client.view.drainedShards)) = some true := by
    decide +kernel
  obtain ⟨sys, hfold, heval⟩ := Option.map_eq_some_iff.mp heval
  rw [Bool.and_eq_true, Bool.and_eq_true, decide_eq_true_eq] at heval
  obtain ⟨⟨hsettled, howner⟩, hdrained⟩ := heval
  have hsettled := settled_of_isSettled hsettled
  have hrun : SpectatingRun "/shards" "orders" (initial true) sys :=
    run_of_foldlM (fun _ label => decide label.Proper) (fun _ _ => of_decide_eq_true) hfold
  have htells := (spectator_informed _ _ true sys hrun).2.2 hsettled
  exact ⟨sys, hrun, hsettled, howner, htells, (htells.drained "7").mp (if_pos hdrained)⟩

end Examples

end spectating
