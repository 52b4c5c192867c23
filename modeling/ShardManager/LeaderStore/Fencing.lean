import ShardManager.LeaderStore.Election

open golang etcd etcdkeys store executorstore transition

namespace executorstore.CommitOps

variable {V : Type}

/-- The `n`-th batch of a call that starts with the given state. -/
def nthBatch (first : CommitOps V) (n : Nat) : Option (List (Op V)) :=
  { first with i := n * first.batchSize }.batch

/-- The batches are the first ones of the call, in its order. -/
def Begins (first : CommitOps V) (batches : List (List (Op V))) : Prop :=
  ∀ (n : Nat) batch, batches[n]? = some batch → n * first.batchSize < first.ops.length ∧ first.nthBatch n = some batch

theorem begins_nil (first : CommitOps V) : first.Begins [] := by
  intro n batch h
  cases h

theorem Begins.append {first : CommitOps V} {batches : List (List (Op V))} (h : first.Begins batches)
    {batch : List (Op V)} (hlt : batches.length * first.batchSize < first.ops.length)
    (hbatch : first.nthBatch batches.length = some batch) : first.Begins (batches ++ [batch]) := by
  intro n batch' hn
  rcases lt_trichotomy n batches.length with hlt' | rfl | hgt
  · rw [List.getElem?_append_left hlt'] at hn
    exact h n batch' hn
  · rw [List.getElem?_concat_length] at hn
    cases hn
    exact ⟨hlt, hbatch⟩
  · rw [List.getElem?_eq_none (by simp; omega)] at hn
    cases hn

end executorstore.CommitOps

namespace leaderstore

open etcdtypes (Value Encoding)

variable {F : Type} {pre ns : String}

section Steps

variable [DecidableEq F]

theorem cmpsHold_guard {e : Election} {cmps : List (Cmp (Value F))} {s : Store (Value F)}
    (h : e.guard = .txn cmps) : cmpsHold s cmps = true ↔ e.Holds s := by
  cases h
  simp [cmpsHold, Cmp.holds, Election.Holds]

/-- What sending an assignment does: nothing, or something while the key of
its leader is there. -/
theorem sendAssignment_cases (a : Assignment F) (i : Nat) (fate : Fate) (sys : System F) :
    sendAssignment pre ns a i fate sys = { sys with assignments := sys.assignments.eraseIdx i } ∨
    a.leader.Holds sys.store ∧ ∃ s', sys.store.Follows s' ∧
      sendAssignment pre ns a i fate sys = { sys with
        store := s'
        assignments := sys.assignments.eraseIdx i
        history := sys.history ++ [.assignShards a.leader] } := by
  unfold sendAssignment
  dsimp only
  have hfollows := assignShards_follows pre ns a.order a.request a.leader.guard fate sys.store
  rcases hcall : executorstore.assignShards pre ns a.order a.request a.leader.guard fate sys.store with ⟨result, s'⟩
  rw [hcall] at hfollows
  have heffective : Assigned pre ns a.request sys.store s' →
      ¬s'.revision = sys.store.revision := by
    intro hassigned
    rw [hassigned.revision]
    omega
  rcases assignShards_cases hcall with ⟨-, -, rfl⟩ | ⟨-, e, -, rfl | ⟨-, hassigned, cmps, hguard, hholds⟩⟩ |
    ⟨-, -, hassigned, cmps, hguard, hholds⟩
  · left
    simp
  · left
    simp
  · right
    refine ⟨(cmpsHold_guard hguard).mp hholds, s', hfollows, ?_⟩
    rw [if_neg (heffective hassigned)]
  · right
    refine ⟨(cmpsHold_guard hguard).mp hholds, s', hfollows, ?_⟩
    rw [if_neg (heffective hassigned)]

/-- What sending a batch does: it ends the call, or the next batch takes
effect while the key of its leader is there. -/
theorem sendBatch_cases {d : Delete F} {call : CommitOps (Value F)} (hguard : call.guard = d.leader.guard)
    (i : Nat) (fate : Fate) (sys : System F) :
    (∃ e, sendBatch d call i fate sys =
      { sys with deletes := sys.deletes.set i { d with progress := .returned (.error e) } }) ∨
    d.leader.Holds sys.store ∧ ∃ s' progress batch, sys.store.Follows s' ∧ call.batch = some batch ∧
      (progress = .returned (.error (.commit .unknown)) ∨ ∃ response, progress = call.advance response) ∧
      sendBatch d call i fate sys = { sys with
        store := s'
        deletes := sys.deletes.set i { d with progress }
        history := sys.history ++ [.batch d.leader i batch] } := by
  unfold sendBatch
  rcases hcall : call.commitBatch fate sys.store with ⟨progress, s'⟩
  dsimp only
  rcases CommitOps.commitBatch_cases hcall with ⟨rfl, e, rfl⟩ | ⟨cmps, batch, hcmps, hbatch, hholds, happlied, hprogress⟩
  · left
    exact ⟨e, by simp [tookEffect]⟩
  · rw [hguard] at hcmps
    cases heffect : tookEffect progress sys.store s' with
    | true =>
      right
      refine ⟨(cmpsHold_guard hcmps).mp hholds, s', progress, batch, happlied.follows, hbatch, hprogress, ?_⟩
      rw [hbatch]
      rfl
    | false =>
      left
      unfold tookEffect at heffect
      split at heffect
      · rename_i e
        have hsame := happlied.eq_of_revision (by simpa using heffect)
        exact ⟨e, by simp [hsame]⟩
      · cases heffect

/-- Everything a step can do to the elections and to guarded writes. -/
inductive Effect (pre ns : String) (sys : System F) : System F → Prop where
  | store {s' : Store (Value F)} (hfollows : sys.store.Follows s') : Effect pre ns sys { sys with store := s' }
  | candidate {s' : Store (Value F)} {e : Election} (hfollows : sys.store.Follows s')
      (hfresh : sys.store.revision < e.rev) (hrev : e.rev ≤ s'.revision)
      (hkey : hasPrefix e.key (electionKey pre ns ++ "/") = true) :
      Effect pre ns sys { sys with store := s', elections := e :: sys.elections }
  | elected {e : Election} (hmem : e ∈ sys.elections) (hfirst : isFirst pre ns e sys.store = true) :
      Effect pre ns sys { sys with elected := e :: sys.elected }
  | assign {a : Assignment F} (hleader : a.leader ∈ sys.elected) :
      Effect pre ns sys { sys with assignments := sys.assignments ++ [a] }
  | delete {leader : Election} {call : CommitOps (Value F)} (hleader : leader ∈ sys.elected)
      (hguard : call.guard = leader.guard) (hi : call.i = 0) (hlength : 0 < call.ops.length) :
      Effect pre ns sys { sys with deletes := sys.deletes ++ [⟨leader, call, .running call⟩] }
  | assignmentFailed (i : Nat) : Effect pre ns sys { sys with assignments := sys.assignments.eraseIdx i }
  | assigned {i : Nat} {a : Assignment F} {s' : Store (Value F)} (hsent : sys.assignments[i]? = some a)
      (hholds : a.leader.Holds sys.store) (hfollows : sys.store.Follows s') :
      Effect pre ns sys { sys with
        store := s'
        assignments := sys.assignments.eraseIdx i
        history := sys.history ++ [.assignShards a.leader] }
  | deleteFailed {i : Nat} {d : Delete F} (e : CommitOpsError) (hsent : sys.deletes[i]? = some d) :
      Effect pre ns sys { sys with deletes := sys.deletes.set i { d with progress := .returned (.error e) } }
  | committed {i : Nat} {d : Delete F} {call : CommitOps (Value F)} {s' : Store (Value F)}
      {progress : Progress (Value F)} {batch : List (Op (Value F))} (hsent : sys.deletes[i]? = some d)
      (hrunning : d.progress = .running call) (hholds : d.leader.Holds sys.store)
      (hfollows : sys.store.Follows s') (hbatch : call.batch = some batch)
      (hprogress : progress = .returned (.error (.commit .unknown)) ∨ ∃ response, progress = call.advance response) :
      Effect pre ns sys { sys with
        store := s'
        deletes := sys.deletes.set i { d with progress }
        history := sys.history ++ [.batch d.leader i batch] }

theorem effect_of_campaign (lease host : String) (fate : Fate) (sys : System F) :
    Effect pre ns sys (campaign pre ns lease host fate sys) := by
  unfold campaign
  rcases hsend : (campaignTxn pre ns lease host).send fate sys.store with ⟨result, s'⟩
  rcases Txn.send_flat_cases hsend with ⟨rfl, e, rfl⟩ | ⟨happlied, rfl | ⟨response, rfl, hsucceeded⟩⟩
  · exact .store (.refl _)
  · exact .store happlied.follows
  · dsimp only
    split
    · rename_i hok
      rw [← hsucceeded, if_pos hok] at happlied
      have hrevision := happlied.revision_of_put List.mem_cons_self
      refine .candidate happlied.follows ?_ le_rfl ?_
      · change sys.store.revision < s'.revision
        omega
      · exact hasPrefix_append _ _
    · exact .store happlied.follows

/-- The calls that are going on carry the guard of an elected leader. -/
def GuardsKept (sys : System F) : Prop :=
  ∀ d ∈ sys.deletes, ∀ call, d.progress = .running call → call.guard = d.leader.guard

omit [DecidableEq F] in
theorem effect_of_beginDelete {leader : Election} {progress : Progress (Value F)} {sys : System F}
    (hleader : leader ∈ sys.elected) (hrunning : ∀ call, progress = .running call →
      call.guard = leader.guard ∧ call.i = 0 ∧ 0 < call.ops.length) :
    Effect pre ns sys (beginDelete leader progress sys) := by
  cases progress with
  | running call =>
    obtain ⟨hguard, hi, hlength⟩ := hrunning call rfl
    exact .delete hleader hguard hi hlength
  | returned result => exact .store (.refl _)

theorem effect_of_step [Float64 F] [Encoding F] {sys sys' : System F} {label : Label F} (hguards : GuardsKept sys)
    (h : step pre ns label sys = some sys') : Effect pre ns sys sys' := by
  cases label with
  | campaign lease host fate =>
    cases h
    exact effect_of_campaign lease host fate sys
  | elected e =>
    dsimp only [step] at h
    split at h
    · rename_i hcond
      cases h
      exact .elected hcond.1 hcond.2
    · cases h
  | resign e fate =>
    dsimp only [step] at h
    split at h
    · cases h
      exact .store (Txn.send_follows _ _ _)
    · cases h
  | expire e =>
    dsimp only [step] at h
    split at h
    · cases h
      exact .store (Txn.send_follows _ _ _)
    · cases h
  | resetNamespace fate =>
    cases h
    rw [resetNamespace_store]
    exact .store (Txn.send_follows _ _ _)
  | assignShards leader order request =>
    dsimp only [step] at h
    split at h
    · rename_i hleader
      cases h
      exact .assign hleader
    · cases h
  | deleteExecutors leader maxEtcdTxnOps executorIDs =>
    dsimp only [step] at h
    split at h
    · rename_i hleader
      cases h
      refine effect_of_beginDelete hleader fun call hcall => ?_
      obtain ⟨-, -, hguard, hi, hlength⟩ := commitOps_running (deleteExecutors_running hcall)
      exact ⟨hguard, hi, hlength⟩
    · cases h
  | deleteShardStats leader order maxEtcdTxnOps shardIDs =>
    dsimp only [step] at h
    split at h
    · rename_i hleader
      split at h
      · rename_i progress hprogress
        cases h
        refine effect_of_beginDelete hleader fun call hcall => ?_
        rw [hcall] at hprogress
        obtain ⟨ops, hcommit, -⟩ := deleteShardStats_running hprogress
        obtain ⟨-, -, hguard, hi, hlength⟩ := commitOps_running hcommit
        exact ⟨hguard, hi, hlength⟩
      · cases h
        exact .store (.refl _)
    · cases h
  | sendAssignment i fate =>
    dsimp only [step] at h
    split at h
    · rename_i a hsent
      cases h
      rcases sendAssignment_cases a i fate sys with heq | ⟨hholds, s', hfollows, heq⟩
      · rw [heq]
        exact .assignmentFailed i
      · rw [heq]
        exact .assigned hsent hholds hfollows
    · cases h
  | sendBatch i fate =>
    dsimp only [step] at h
    split at h
    · rename_i d hsent
      split at h
      · rename_i call hrunning
        cases h
        have hguard := hguards d (List.mem_of_getElem? hsent) call hrunning
        rcases sendBatch_cases hguard i fate sys with
          ⟨e, heq⟩ | ⟨hholds, s', progress, batch, hfollows, hbatch, hprogress, heq⟩
        · rw [heq]
          exact .deleteFailed e hsent
        · rw [heq]
          exact .committed hsent hrunning hholds hfollows hbatch hprogress
      · cases h
    · cases h
  | other txn fate =>
    cases h
    exact .store (Txn.send_follows _ _ _)

end Steps

/-- The batches of one call that took effect, in order. -/
def batchesOf (i : Nat) (history : List (Written F)) : List (List (Op (Value F))) :=
  history.filterMap fun
    | .batch _ call ops => if call = i then some ops else none
    | .assignShards _ => none

theorem batchesOf_batch (i : Nat) (history : List (Written F)) (leader : Election) (ops : List (Op (Value F))) :
    batchesOf i (history ++ [.batch leader i ops]) = batchesOf i history ++ [ops] := by
  simp [batchesOf]

theorem batchesOf_batch_ne {i j : Nat} (h : j ≠ i) (history : List (Written F)) (leader : Election)
    (ops : List (Op (Value F))) : batchesOf i (history ++ [.batch leader j ops]) = batchesOf i history := by
  simp [batchesOf, h]

theorem batchesOf_assignShards (i : Nat) (history : List (Written F)) (leader : Election) :
    batchesOf i (history ++ [.assignShards leader]) = batchesOf i history := by
  simp [batchesOf]

/-- A call has committed the first batches of its list, and goes on, if it
does, with the next one. -/
structure Delete.Consistent (d : Delete F) (batches : List (List (Op (Value F)))) : Prop where
  guard : d.first.guard = d.leader.guard
  begins : d.first.Begins batches
  next : ∀ call, d.progress = .running call → CommitOps.SameCall d.first call ∧
    call.i = batches.length * d.first.batchSize ∧ call.i < d.first.ops.length

theorem Delete.Consistent.nthBatch {d : Delete F} {batches : List (List (Op (Value F)))}
    (h : d.Consistent batches) {call : CommitOps (Value F)} (hrunning : d.progress = .running call) :
    d.first.nthBatch batches.length = call.batch := by
  obtain ⟨hsame, hi, -⟩ := h.next call hrunning
  unfold CommitOps.nthBatch CommitOps.batch
  dsimp only
  rw [← hi, hsame.batchSize, hsame.ops]

theorem Delete.Consistent.returned {d : Delete F} {batches : List (List (Op (Value F)))} (h : d.Consistent batches)
    (result : Except CommitOpsError (List (TxnResponse (Value F)))) :
    Delete.Consistent { d with progress := .returned result } batches :=
  ⟨h.guard, h.begins, fun _ hcall => by cases hcall⟩

theorem Delete.Consistent.committed {d : Delete F} {batches : List (List (Op (Value F)))}
    (h : d.Consistent batches) {call : CommitOps (Value F)} (hrunning : d.progress = .running call)
    {batch : List (Op (Value F))} (hbatch : call.batch = some batch) {progress : Progress (Value F)}
    (hprogress : progress = .returned (.error (.commit .unknown)) ∨ ∃ response, progress = call.advance response) :
    Delete.Consistent { d with progress } (batches ++ [batch]) := by
  obtain ⟨hsame, hi, hlt⟩ := h.next call hrunning
  refine ⟨h.guard, h.begins.append (hi ▸ hlt) ((h.nthBatch hrunning).trans hbatch), ?_⟩
  rintro call' rfl
  rcases hprogress with hunknown | ⟨response, hadvance⟩
  · cases hunknown
  · obtain ⟨hsame', hi', hlt'⟩ := CommitOps.running_of_advance hadvance.symm
    refine ⟨⟨hsame'.ops.trans hsame.ops, hsame'.extraOps.trans hsame.extraOps, hsame'.guard.trans hsame.guard,
      hsame'.batchSize.trans hsame.batchSize⟩, ?_, hsame.ops ▸ hlt'⟩
    rw [hi', hi, hsame.batchSize, List.length_append, List.length_singleton]
    push_cast
    ring

/-- Leaders do not overlap: once one is elected, the earlier candidates have
lost their keys, and what took effect so far is in the order of leaderships. -/
structure Fenced (pre ns : String) (sys : System F) : Prop where
  candidates : ∀ e ∈ sys.elected, e ∈ sys.elections
  keys : ∀ e ∈ sys.elections, hasPrefix e.key (electionKey pre ns ++ "/") = true
  revisions : ∀ e ∈ sys.elections, 0 < e.rev ∧ e.rev ≤ sys.store.revision
  superseded : ∀ e ∈ sys.elected, ∀ e' ∈ sys.elections, e'.rev < e.rev → ¬e'.Holds sys.store
  assignments : ∀ a ∈ sys.assignments, a.leader ∈ sys.elected
  deletes : ∀ (i : Nat) (d : Delete F), sys.deletes[i]? = some d →
    d.leader ∈ sys.elected ∧ d.Consistent (batchesOf i sys.history)
  unused : ∀ i, sys.deletes.length ≤ i → batchesOf i sys.history = []
  writers : ∀ w ∈ sys.history, w.leader ∈ sys.elected
  ordered : sys.history.Pairwise fun w w' => w.leader.rev ≤ w'.leader.rev

theorem fenced_initial : Fenced pre ns (initial : System F) := by
  refine ⟨?_, ?_, ?_, ?_, ?_, ?_, ?_, ?_, ?_⟩ <;> simp [initial, batchesOf]

namespace Fenced

variable {sys : System F} (h : Fenced pre ns sys)

include h

theorem guardsKept : GuardsKept sys := by
  intro d hd call hrunning
  obtain ⟨i, hi⟩ := List.getElem?_of_mem hd
  have hconsistent := (h.deletes i d hi).2
  rw [(hconsistent.next call hrunning).1.guard, hconsistent.guard]

/-- A key that is lost is lost for good. -/
theorem not_holds {e : Election} (he : e ∈ sys.elections)
    {s' : Store (Value F)} (hfollows : sys.store.Follows s') (hlost : ¬e.Holds sys.store) : ¬e.Holds s' := by
  obtain ⟨hpos, hle⟩ := h.revisions e he
  exact fun hholds => hlost (hfollows.modRevision_eq hpos hle hholds)

/-- A leader whose key is there comes after everyone who wrote before. -/
theorem rev_le {e : Election} (he : e ∈ sys.elected)
    (hholds : e.Holds sys.store) {w : Written F} (hw : w ∈ sys.history) : w.leader.rev ≤ e.rev := by
  by_contra hlt
  exact h.superseded w.leader (h.writers w hw) e (h.candidates e he) (not_le.mp hlt) hholds

theorem ordered_append {w : Written F} (he : w.leader ∈ sys.elected) (hholds : w.leader.Holds sys.store) :
    (sys.history ++ [w]).Pairwise fun w w' => w.leader.rev ≤ w'.leader.rev := by
  refine List.pairwise_append.mpr ⟨h.ordered, List.pairwise_singleton _ _, ?_⟩
  intro w' hw' w'' hw''
  rw [List.mem_singleton] at hw''
  subst hw''
  exact h.rev_le he hholds hw'

theorem store {s' : Store (Value F)} (hfollows : sys.store.Follows s') : Fenced pre ns { sys with store := s' } :=
  { h with
    revisions := fun e he => ⟨(h.revisions e he).1, (h.revisions e he).2.trans hfollows.revision_le⟩
    superseded := fun e he e' he' hlt => h.not_holds he' hfollows (h.superseded e he e' he' hlt) }

theorem candidate {e : Election}
    (hpos : 0 < e.rev) (hrev : e.rev ≤ sys.store.revision) (hnew : ∀ e' ∈ sys.elections, e'.rev < e.rev)
    (hkey : hasPrefix e.key (electionKey pre ns ++ "/") = true) :
    Fenced pre ns { sys with elections := e :: sys.elections } :=
  { h with
    candidates := fun e' he' => List.mem_cons_of_mem _ (h.candidates e' he')
    keys := List.forall_mem_cons.mpr ⟨hkey, h.keys⟩
    revisions := List.forall_mem_cons.mpr ⟨⟨hpos, hrev⟩, h.revisions⟩
    superseded := by
      intro e₁ he₁ e' he' hlt
      rcases List.mem_cons.mp he' with rfl | he'
      · exact absurd hlt (hnew e₁ (h.candidates e₁ he₁)).not_gt
      · exact h.superseded e₁ he₁ e' he' hlt }

/-- Whoever holds its key is among those that `Campaign` waits for. -/
theorem elected {e : Election} (hmem : e ∈ sys.elections)
    (hfirst : isFirst pre ns e sys.store = true) : Fenced pre ns { sys with elected := e :: sys.elected } :=
  { h with
    candidates := List.forall_mem_cons.mpr ⟨hmem, h.candidates⟩
    superseded := by
      intro e₁ he₁ e' he' hlt hholds
      rcases List.mem_cons.mp he₁ with rfl | he₁
      · obtain ⟨hpos, -⟩ := h.revisions e' he'
        cases hget : sys.store.get e'.key with
        | none =>
          rw [Election.Holds, Store.modRevision_of_get_none hget] at hholds
          omega
        | some kv =>
          rw [Election.Holds, Store.modRevision_of_get hget] at hholds
          have hle := List.all_eq_true.mp hfirst _ (Store.mem_range_iff.mpr ⟨h.keys e' he', hget⟩)
          have hle := of_decide_eq_true hle
          change e₁.rev ≤ kv.modRevision at hle
          omega
      · exact h.superseded e₁ he₁ e' he' hlt hholds
    assignments := fun a ha => List.mem_cons_of_mem _ (h.assignments a ha)
    deletes := fun i d hd => ⟨List.mem_cons_of_mem _ (h.deletes i d hd).1, (h.deletes i d hd).2⟩
    writers := fun w hw => List.mem_cons_of_mem _ (h.writers w hw) }

theorem delete {leader : Election} {call : CommitOps (Value F)}
    (hleader : leader ∈ sys.elected) (hguard : call.guard = leader.guard) (hi : call.i = 0)
    (hlength : 0 < call.ops.length) :
    Fenced pre ns { sys with deletes := sys.deletes ++ [⟨leader, call, .running call⟩] } :=
  { h with
    deletes := by
      intro i d hd
      rcases lt_trichotomy i sys.deletes.length with hlt | rfl | hgt
      · rw [List.getElem?_append_left hlt] at hd
        exact h.deletes i d hd
      · rw [List.getElem?_concat_length] at hd
        cases hd
        have hnone := h.unused _ le_rfl
        refine ⟨hleader, hguard, hnone ▸ call.begins_nil, ?_⟩
        rintro _ ⟨⟩
        refine ⟨⟨rfl, rfl, rfl, rfl⟩, by simp [hnone, hi], ?_⟩
        change call.i < call.ops.length
        omega
      · rw [List.getElem?_eq_none (by simp; omega)] at hd
        cases hd
    unused := fun i hi => h.unused i (by simp at hi; omega) }

theorem assigned {leader : Election} (hleader : leader ∈ sys.elected) (hholds : leader.Holds sys.store) :
    Fenced pre ns { sys with history := sys.history ++ [.assignShards leader] } :=
  { h with
    deletes := fun i d hd => by
      rw [batchesOf_assignShards]
      exact h.deletes i d hd
    unused := fun i hi => (batchesOf_assignShards ..).trans (h.unused i hi)
    writers := forall_mem_concat h.writers hleader
    ordered := h.ordered_append hleader hholds }

/-- A call goes on or ends, with what it adds to the history. -/
theorem progressed {i : Nat} {d : Delete F}
    {progress : Progress (Value F)} {history : List (Written F)} (hsent : sys.deletes[i]? = some d)
    (hconsistent : Delete.Consistent { d with progress } (batchesOf i history))
    (hothers : ∀ j, j ≠ i → batchesOf j history = batchesOf j sys.history)
    (hwriters : ∀ w ∈ history, w.leader ∈ sys.elected)
    (hordered : history.Pairwise fun w w' => w.leader.rev ≤ w'.leader.rev) :
    Fenced pre ns { sys with deletes := sys.deletes.set i { d with progress }, history } :=
  { h with
    deletes := by
      intro j d' hd'
      by_cases hij : j = i
      · subst hij
        obtain ⟨hlt, -⟩ := List.getElem?_eq_some_iff.mp hsent
        rw [List.getElem?_set_self hlt] at hd'
        cases hd'
        exact ⟨(h.deletes j d hsent).1, hconsistent⟩
      · rw [List.getElem?_set_ne (Ne.symm hij)] at hd'
        rw [hothers j hij]
        exact h.deletes j d' hd'
    unused := by
      intro j hj
      rw [List.length_set] at hj
      obtain ⟨hlt, -⟩ := List.getElem?_eq_some_iff.mp hsent
      rw [hothers j (by omega)]
      exact h.unused j hj
    writers := hwriters
    ordered := hordered }

theorem effect {sys' : System F} (heffect : Effect pre ns sys sys') :
    Fenced pre ns sys' := by
  cases heffect with
  | store hfollows => exact h.store hfollows
  | candidate hfollows hfresh hrev hkey =>
    have hpos := sys.store.revision_pos
    refine (h.store hfollows).candidate (by omega) hrev ?_ hkey
    exact fun e' he' => (h.revisions e' he').2.trans_lt hfresh
  | elected hmem hfirst => exact h.elected hmem hfirst
  | assign hleader =>
    exact { h with
      assignments := forall_mem_concat h.assignments hleader }
  | delete hleader hguard hi hlength => exact h.delete hleader hguard hi hlength
  | assignmentFailed i =>
    exact { h with assignments := forall_mem_eraseIdx h.assignments }
  | assigned hsent hholds hfollows =>
    have hassigned := (h.assigned (h.assignments _ (List.mem_of_getElem? hsent)) hholds).store hfollows
    exact { hassigned with assignments := forall_mem_eraseIdx h.assignments }
  | deleteFailed e hsent =>
    exact h.progressed hsent ((h.deletes _ _ hsent).2.returned _) (fun _ _ => rfl) h.writers h.ordered
  | committed hsent hrunning hholds hfollows hbatch hprogress =>
    obtain ⟨hleader, hconsistent⟩ := h.deletes _ _ hsent
    refine (h.progressed hsent ?_ ?_ ?_ ?_).store hfollows
    · rw [batchesOf_batch]
      exact hconsistent.committed hrunning hbatch hprogress
    · exact fun j hj => batchesOf_batch_ne (Ne.symm hj) ..
    · exact forall_mem_concat h.writers hleader
    · exact h.ordered_append hleader hholds

end Fenced

theorem Effect.follows {sys sys' : System F} (h : Effect pre ns sys sys') : sys.store.Follows sys'.store := by
  cases h with
  | store hfollows => exact hfollows
  | candidate hfollows => exact hfollows
  | assigned _ _ hfollows => exact hfollows
  | committed _ _ _ hfollows => exact hfollows
  | elected | assign | delete | assignmentFailed | deleteFailed => exact .refl _

theorem Effect.mem_elections {sys sys' : System F} (h : Effect pre ns sys sys') {e : Election}
    (he : e ∈ sys.elections) : e ∈ sys'.elections := by
  cases h with
  | candidate => exact List.mem_cons_of_mem _ he
  | store | elected | assign | delete | assignmentFailed | assigned | deleteFailed | committed => exact he

variable [DecidableEq F]

/-- The step sends a transaction guarded by the given leader. -/
def SentBy (sys : System F) (leader : Election) : Label F → Prop
  | .sendAssignment i _ => ∃ a, sys.assignments[i]? = some a ∧ a.leader = leader
  | .sendBatch i _ => ∃ d, sys.deletes[i]? = some d ∧ d.leader = leader
  | _ => False

/-- What a guarded transaction can do: nothing, or take effect while the key of
its leader is there. -/
theorem sent_cases [Float64 F] [Encoding F] {sys sys' : System F} {label : Label F} {leader : Election}
    (hguards : GuardsKept sys) (hsent : SentBy sys leader label) (h : step pre ns label sys = some sys') :
    (sys'.store = sys.store ∧ sys'.history = sys.history) ∨
      leader.Holds sys.store ∧ ∃ w : Written F, w.leader = leader ∧ sys'.history = sys.history ++ [w] := by
  unfold SentBy at hsent
  split at hsent
  · obtain ⟨a, ha, rfl⟩ := hsent
    dsimp only [step] at h
    rw [ha] at h
    cases h
    rcases sendAssignment_cases a _ _ sys with heq | ⟨hholds, s', hfollows, heq⟩
    · rw [heq]
      exact .inl ⟨rfl, rfl⟩
    · rw [heq]
      exact .inr ⟨hholds, _, rfl, rfl⟩
  · obtain ⟨d, hd, rfl⟩ := hsent
    dsimp only [step] at h
    rw [hd] at h
    dsimp only at h
    split at h
    · rename_i call hrunning
      cases h
      have hguard := hguards d (List.mem_of_getElem? hd) call hrunning
      rcases sendBatch_cases hguard _ _ sys with ⟨e, heq⟩ | ⟨hholds, s', progress, batch, -, -, -, heq⟩
      · rw [heq]
        exact .inl ⟨rfl, rfl⟩
      · rw [heq]
        exact .inr ⟨hholds, _, rfl, rfl⟩
    · cases h
  · exact hsent.elim

theorem fenced_of_reaches [Float64 F] [Encoding F] {sys sys' : System F} (h : Fenced pre ns sys)
    (hrun : Reaches (step pre ns) sys sys') : Fenced pre ns sys' :=
  hrun.invariant (Fenced pre ns)
    (fun _ _ _ hinv _ hstep => hinv.effect (effect_of_step hinv.guardsKept hstep)) h

/-- A candidate that has lost its key stays without it. -/
theorem lost_of_reaches [Float64 F] [Encoding F] {sys sys' : System F} (h : Fenced pre ns sys)
    (hrun : Reaches (step pre ns) sys sys') {e : Election} (he : e ∈ sys.elections)
    (hlost : ¬e.Holds sys.store) : ¬e.Holds sys'.store := by
  have hinv : Fenced pre ns sys' ∧ e ∈ sys'.elections ∧ ¬e.Holds sys'.store := by
    refine hrun.invariant (fun sys => Fenced pre ns sys ∧ e ∈ sys.elections ∧ ¬e.Holds sys.store) ?_ ⟨h, he, hlost⟩
    rintro sys label sys' ⟨hinv, he, hlost⟩ - hstep
    have heffect := effect_of_step hinv.guardsKept hstep
    exact ⟨hinv.effect heffect, heffect.mem_elections he, hinv.not_holds he heffect.follows hlost⟩
  exact hinv.2.2

/-- The guard fences off former leaders, whatever the leaderships of the
namespace and the interleaving of their transactions. After a candidacy has
lost the key it created, no transaction it guards changes the store; everything
that guarded transactions changed was written in the order of the leaderships;
and every batched delete has applied its first batches and nothing else. -/
theorem guarded_writes_fenced [Float64 F] [Encoding F] (pre ns : String) (sys : System F)
    (hreach : Reaches (step pre ns) initial sys) :
    (∀ leader ∈ sys.elections, ¬leader.Holds sys.store →
      ∀ sys' label sys'', Reaches (step pre ns) sys sys' → SentBy sys' leader label →
        step pre ns label sys' = some sys'' → sys''.store = sys'.store ∧ sys''.history = sys'.history) ∧
    (∀ leader label sys', SentBy sys leader label → step pre ns label sys = some sys' →
      sys'.store ≠ sys.store → ∃ w : Written F, w.leader = leader ∧ sys'.history = sys.history ++ [w]) ∧
    (sys.history.Pairwise fun w w' => w.leader.rev ≤ w'.leader.rev) ∧
    ∀ (i : Nat) (d : Delete F), sys.deletes[i]? = some d → d.first.Begins (batchesOf i sys.history) := by
  have hinv : Fenced pre ns sys := fenced_of_reaches fenced_initial hreach
  refine ⟨?_, ?_, hinv.ordered, fun i d hd => (hinv.deletes i d hd).2.begins⟩
  · intro leader hleader hlost sys' label sys'' hrun hsent hstep
    rcases sent_cases (fenced_of_reaches hinv hrun).guardsKept hsent hstep with hsame | ⟨hholds, -⟩
    · exact hsame
    · exact absurd hholds (lost_of_reaches hinv hrun hleader hlost)
  · intro leader label sys' hsent hstep hchanged
    rcases sent_cases hinv.guardsKept hsent hstep with ⟨hsame, -⟩ | ⟨-, hwritten⟩
    · exact absurd hsame hchanged
    · exact hwritten

section Examples

/-- The first leader of the namespace. -/
def firstLeader : Election := ⟨"/shards/orders/leader/1", 2⟩

/-- A leader deletes two executors in two batches and loses its session after
the first one. -/
def deposed : List (Label ExactFloat) :=
  [.campaign "1" "host-1" .delivered, .elected firstLeader,
    .other (.flat [] [.put "/shards/orders/executors/a/status" (.status .active),
      .put "/shards/orders/executors/b/status" (.status .active)] []) .delivered,
    .deleteExecutors firstLeader 3 ["a", "b"], .sendBatch 0 .delivered, .expire firstLeader,
    .campaign "2" "host-2" .delivered, .elected ⟨"/shards/orders/leader/2", 6⟩]

/-- The second batch of a deposed leader comes too late. -/
theorem deposed_fenced : ∃ sys sys' : System ExactFloat, Reaches (step "/shards" "orders") initial sys ∧
    ¬firstLeader.Holds sys.store ∧
    step "/shards" "orders" (.sendBatch 0 .delivered) sys = some sys' ∧
    batchesOf 0 sys.history = [[.delete (.withPrefix "/shards/orders/executors/a/")]] ∧
    sys'.store = sys.store ∧ sys'.history = sys.history := by
  have heval : ((deposed.foldlM (fun sys label => step "/shards" "orders" label sys) initial).bind
      fun sys => (step "/shards" "orders" (.sendBatch 0 .delivered) sys).map fun _ =>
        decide (firstLeader ∈ sys.elections ∧ sys.store.modRevision firstLeader.key ≠ firstLeader.rev ∧
          sys.deletes.map Delete.leader = [firstLeader] ∧
          batchesOf 0 sys.history = [[.delete (.withPrefix "/shards/orders/executors/a/")]])) = some true := by
    decide +kernel
  obtain ⟨sys, hfold, heval⟩ := Option.bind_eq_some_iff.mp heval
  obtain ⟨sys', hstep, heval⟩ := Option.map_eq_some_iff.mp heval
  obtain ⟨hleader, hlost, hdeletes, hbatches⟩ := of_decide_eq_true heval
  have hreach := reaches_of_foldlM hfold
  have hsent : SentBy sys firstLeader (.sendBatch 0 .delivered) := by
    obtain ⟨d, hd, hleader⟩ := List.map_eq_singleton_iff.mp hdeletes
    exact ⟨d, by rw [hd]; rfl, hleader⟩
  obtain ⟨hstore, hhistory⟩ := (guarded_writes_fenced _ _ sys hreach).1 firstLeader hleader hlost sys _ sys'
    .refl hsent hstep
  exact ⟨sys, sys', hreach, hlost, hstep, hbatches, hstore, hhistory⟩

end Examples

end leaderstore
