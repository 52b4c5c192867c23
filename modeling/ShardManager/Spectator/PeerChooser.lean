import Mathlib.Data.List.Count
import ShardManager.Abstract.Transition
import ShardManager.Spectator.View

open golang

namespace yarpcerrors

inductive Code where
  | invalidArgument
  | failedPrecondition
  | unavailable
  | internal
deriving DecidableEq, Repr

structure Status where
  code : Code
  message : String
deriving DecidableEq, Repr

end yarpcerrors

namespace spectatorclient

open yarpcerrors (Status)

def namespaceHeader : String := "x-shard-distributor-namespace"

def grpcAddressMetadataKey : String := "grpc_address"

/-- The errors of `GetShardOwner` that are told apart. -/
inductive OwnerError where
  | shardDrained (ns shardKey : String)
  | other (message : String)
deriving DecidableEq, Repr

/-- What the spectator of each namespace answers at some time. -/
abbrev Spectators := Map String (String → Except OwnerError ShardOwner)

structure Request where
  shardKey : String
  headers : Map String String

/-- `Choose` up to the peer: the address of the executor that owns the shard. -/
def resolve (spectators : Spectators) (req : Request) : Except Status String :=
  if req.shardKey = "" then .error ⟨.invalidArgument, "chooser requires ShardKey to be non-empty"⟩
  else
    let ns := (req.headers.lookup namespaceHeader).getD ""
    if ns = "" then
      .error ⟨.invalidArgument, "chooser requires x-shard-distributor-namespace header to be non-empty"⟩
    else match spectators.lookup ns with
      | none => .error ⟨.invalidArgument,
          s!"get spectator for namespace {ns}: spectator not found for namespace {ns}"⟩
      | some getShardOwner =>
        match getShardOwner req.shardKey with
        -- Retrying does not help, so this must not be reported as unavailable.
        | .error (.shardDrained _ _) =>
          .error ⟨.failedPrecondition, s!"shard {req.shardKey} is drained in namespace {ns}"⟩
        | .error (.other message) =>
          .error ⟨.unavailable, s!"get shard owner for key {req.shardKey}: {message}"⟩
        | .ok owner =>
          let grpcAddress := (owner.metadata.lookup grpcAddressMetadataKey).getD ""
          if grpcAddress = "" then
            .error ⟨.internal,
              s!"no grpc_address in metadata for executor {owner.executorID} owning shard {req.shardKey}"⟩
          else .ok grpcAddress

end spectatorclient

namespace peerchooser

open spectatorclient

/-- The calls of the transport. Peers are told apart by their addresses. A call
of `RetainPeer` that fails is left out, and one of `ReleasePeer` is marked. -/
inductive PeerCall where
  | retain (addr : String)
  | release (addr : String) (released : Bool)
deriving DecidableEq, Repr

/-- The states of `lifecycle.Once`. -/
inductive Lifecycle where
  | idle
  | running
  | stopping
  | stopped
deriving DecidableEq, Repr

/-- The chooser with its clock and its eviction loop. The peers retained and
given back and those handed out, with the time, are kept for reasoning only. -/
structure PeerChooser where
  /-- When the peer of an address was last used. -/
  peers : Map String Time
  peerTTL : Duration
  clock : Time
  once : Lifecycle
  /-- The eviction loop is running. -/
  looping : Bool
  nextTick : Time
  /-- The time `evictStalePeers` has read before it waits for the lock. -/
  evicting : Option Time
  calls : List PeerCall
  handedOut : List (String × Time)

def newSpectatorPeerChooser (peerTTL : Duration) (clock : Time) : PeerChooser :=
  ⟨∅, peerTTL, clock, .idle, false, clock, none, [], []⟩

namespace PeerChooser

/-- `getOrCreatePeer` returns the peer unless it has to be retained and cannot. -/
def getOrCreatePeer (retainFails : Bool) (addr : String) (c : PeerChooser) : PeerChooser :=
  if addr ∈ c.peers then
    { c with peers := c.peers.insert addr c.clock, handedOut := c.handedOut ++ [(addr, c.clock)] }
  else if retainFails then c
  else { c with
    peers := c.peers.insert addr c.clock
    calls := c.calls ++ [.retain addr]
    handedOut := c.handedOut ++ [(addr, c.clock)] }

/-- The last use is longer ago than the TTL. -/
def isStale (c : PeerChooser) (now lastUsed : Time) : Bool := decide (c.peerTTL < now.sub lastUsed)

/-- Errors of `ReleasePeer` are logged, and the peer is forgotten all the same. -/
def evictStalePeers (order : RangeOrder) (releases : String → Bool) (now : Time) (c : PeerChooser) : PeerChooser :=
  { c with
    calls := c.calls ++ (((order.range "evictStalePeers" c.peers).filter fun entry => c.isStale now entry.2).map
      Prod.fst).map fun addr => .release addr (releases addr)
    peers := c.peers.filterMapValues fun lastUsed => if c.isStale now lastUsed then none else some lastUsed }

def releasePeers (order : RangeOrder) (releases : String → Bool) (c : PeerChooser) : PeerChooser :=
  { c with
    calls := c.calls ++ (order.rangeKeys "stop" c.peers).map fun addr => .release addr (releases addr)
    peers := ∅ }

end PeerChooser

inductive Label where
  /-- Time passes. -/
  | advance (d : ℕ)
  | choose (spectators : Spectators) (req : Request) (retainFails : Bool)
  | start
  /-- The ticker of the loop fires, after dropping some ticks that came too early. -/
  | tick (dropped : ℕ)
  /-- The loop has the lock. The transport releases some of the stale peers. -/
  | evict (order : RangeOrder) (releases : String → Bool)
  | stop
  /-- The loop sees that the chooser is stopping. -/
  | exitLoop
  /-- `stop` has waited for the loop and releases the peers. -/
  | release (order : RangeOrder) (releases : String → Bool)

def step : Label → PeerChooser → Option PeerChooser
  | .advance d, c => some { c with clock := c.clock + d }
  | .choose spectators req retainFails, c =>
    match resolve spectators req with
    | .error _ => some c
    | .ok addr => some (c.getOrCreatePeer retainFails addr)
  | .start, c =>
    if c.once = .idle then
      some { c with once := .running, looping := true, nextTick := c.clock + c.peerTTL.tdiv 2 }
    else some c
  | .tick dropped, c =>
    if c.looping = true ∧ c.evicting = none ∧ c.nextTick ≤ c.clock then
      some { c with evicting := some c.clock, nextTick := c.nextTick + (dropped + 1) * c.peerTTL.tdiv 2 }
    else none
  | .evict order releases, c =>
    c.evicting.map fun now => { c.evictStalePeers order releases now with evicting := none }
  | .stop, c =>
    match c.once with
    | .idle => some { c with once := .stopped }
    | .running => some { c with once := .stopping }
    | _ => some c
  | .exitLoop, c =>
    if c.once = .stopping ∧ c.looping = true ∧ c.evicting = none then some { c with looping := false } else none
  | .release order releases, c =>
    if c.once = .stopping ∧ c.looping = false then some { c.releasePeers order releases with once := .stopped } else none

section Moves

/-- Everything a step can do. -/
inductive Moves (c : PeerChooser) : Label → PeerChooser → Prop where
  | advance (d : ℕ) : Moves c (.advance d) { c with clock := c.clock + d }
  | use {label : Label} (addr : String) {calls : List PeerCall}
      (hcalls : addr ∈ c.peers ∧ calls = [] ∨ addr ∉ c.peers ∧ calls = [.retain addr]) : Moves c label
      { c with
        peers := c.peers.insert addr c.clock
        calls := c.calls ++ calls
        handedOut := c.handedOut ++ [(addr, c.clock)] }
  | start (hidle : c.once = .idle) : Moves c .start
      { c with once := .running, looping := true, nextTick := c.clock + c.peerTTL.tdiv 2 }
  | tick (dropped : ℕ) (hlooping : c.looping = true) (hevicting : c.evicting = none) (hdue : c.nextTick ≤ c.clock) :
      Moves c (.tick dropped)
        { c with evicting := some c.clock, nextTick := c.nextTick + (dropped + 1) * c.peerTTL.tdiv 2 }
  | evict (order : RangeOrder) (releases : String → Bool) {now : Time} (hevicting : c.evicting = some now) :
      Moves c (.evict order releases) { c.evictStalePeers order releases now with evicting := none }
  | stopIdle (hidle : c.once = .idle) : Moves c .stop { c with once := .stopped }
  | stop (hrunning : c.once = .running) : Moves c .stop { c with once := .stopping }
  | exitLoop (hstopping : c.once = .stopping) (hevicting : c.evicting = none) :
      Moves c .exitLoop { c with looping := false }
  | release (order : RangeOrder) (releases : String → Bool) (hstopping : c.once = .stopping)
      (hlooping : c.looping = false) :
      Moves c (.release order releases) { c.releasePeers order releases with once := .stopped }
  /-- The call has no effect. -/
  | none {label : Label} : Moves c label c

theorem moves_getOrCreatePeer (label : Label) (c : PeerChooser) (retainFails : Bool) (addr : String) :
    Moves c label (c.getOrCreatePeer retainFails addr) := by
  unfold PeerChooser.getOrCreatePeer
  split
  · rename_i hcached
    have hmoves : Moves c label _ := .use addr (.inl ⟨hcached, rfl⟩)
    rwa [List.append_nil] at hmoves
  · rename_i hmissing
    split
    · exact .none
    · exact .use addr (.inr ⟨hmissing, rfl⟩)

theorem moves_of_step {label : Label} {c c' : PeerChooser} (hstep : step label c = some c') : Moves c label c' := by
  cases label with
  | advance d =>
    cases hstep
    exact .advance d
  | choose spectators req retainFails =>
    dsimp only [step] at hstep
    split at hstep
    · cases hstep
      exact .none
    · cases hstep
      exact moves_getOrCreatePeer ..
  | start =>
    dsimp only [step] at hstep
    split at hstep
    · cases hstep
      exact .start (by assumption)
    · cases hstep
      exact .none
  | tick dropped =>
    dsimp only [step] at hstep
    split at hstep
    · rename_i henabled
      cases hstep
      exact .tick dropped henabled.1 henabled.2.1 henabled.2.2
    · cases hstep
  | evict order releases =>
    obtain ⟨now, hevicting, rfl⟩ := Option.map_eq_some_iff.mp hstep
    exact .evict order releases hevicting
  | stop =>
    dsimp only [step] at hstep
    split at hstep
    · cases hstep
      exact .stopIdle (by assumption)
    · cases hstep
      exact .stop (by assumption)
    · cases hstep
      exact .none
  | exitLoop =>
    dsimp only [step] at hstep
    split at hstep
    · rename_i henabled
      cases hstep
      exact .exitLoop henabled.1 henabled.2.2
    · cases hstep
  | release order releases =>
    dsimp only [step] at hstep
    split at hstep
    · rename_i henabled
      cases hstep
      exact .release order releases henabled.1 henabled.2
    · cases hstep

end Moves

section Balance

variable {calls : List PeerCall} {peers peers' : Map String Time} {c : PeerChooser}

/-- Of all peers that were retained and not released, the transport holds one for
each address in the map and one for each release that failed. -/
def Balanced (calls : List PeerCall) (peers : Map String Time) : Prop :=
  ∀ addr, calls.count (.retain addr) =
    calls.count (.release addr true) + calls.count (.release addr false) + if addr ∈ peers then 1 else 0

theorem Balanced.use (h : Balanced calls peers) {addr : String} {new : List PeerCall}
    (hnew : addr ∈ peers ∧ new = [] ∨ addr ∉ peers ∧ new = [.retain addr]) (now : Time) :
    Balanced (calls ++ new) (peers.insert addr now) := by
  intro other
  have hother := h other
  rcases hnew with ⟨hcached, rfl⟩ | ⟨hmissing, rfl⟩
  · rw [List.append_nil, hother]
    exact congrArg _ (if_congr (Map.mem_insert_iff_of_mem hcached).symm rfl rfl)
  · by_cases heq : other = addr
    · subst heq
      simp [List.count_append, hother, hmissing]
    · simp [List.count_append, hother, heq, Ne.symm heq]

/-- Each release succeeds or fails. -/
theorem count_releases (releases : String → Bool) (released : List String) (addr : String) :
    (released.map fun addr => PeerCall.release addr (releases addr)).count (.release addr true) +
      (released.map fun addr => PeerCall.release addr (releases addr)).count (.release addr false) =
      released.count addr := by
  induction released with
  | nil => rfl
  | cons first rest ih =>
    by_cases heq : first = addr
    · subst heq
      cases hreleases : releases first with
      | true =>
        simp [hreleases, ← ih]
        omega
      | false => simp [hreleases, ← ih, Nat.add_assoc]
    · simp [heq, ih]

/-- Trying to release some of the peers in the map and removing them. -/
theorem Balanced.release (h : Balanced calls peers) (releases : String → Bool) {released : List String}
    (hnodup : released.Nodup) (hcached : ∀ addr ∈ released, addr ∈ peers)
    (hpeers : ∀ addr, addr ∈ peers' ↔ addr ∈ peers ∧ addr ∉ released) :
    Balanced (calls ++ released.map fun addr => .release addr (releases addr)) peers' := by
  intro addr
  have hretain : (released.map fun addr => PeerCall.release addr (releases addr)).count (.retain addr) = 0 := by
    rw [List.count_eq_zero]
    intro hmem
    obtain ⟨other, -, heq⟩ := List.mem_map.mp hmem
    cases heq
  have hrelease := count_releases releases released addr
  rw [List.count_append, List.count_append, List.count_append, hretain, h addr]
  by_cases hreleased : addr ∈ released
  · rw [List.count_eq_one_of_mem hnodup hreleased] at hrelease
    rw [if_pos (hcached addr hreleased), if_neg fun hmem => ((hpeers addr).mp hmem).2 hreleased]
    omega
  · rw [List.count_eq_zero.mpr hreleased] at hrelease
    rw [if_congr ((hpeers addr).trans (and_iff_left hreleased)) rfl rfl]
    omega

/-- A peer is evicted if its last use is longer ago than the TTL. -/
theorem lookup_evictStalePeers (order : RangeOrder) (releases : String → Bool) {now lastUsed : Time} {addr : String} :
    (c.evictStalePeers order releases now).peers.lookup addr = some lastUsed ↔
      c.peers.lookup addr = some lastUsed ∧ c.isStale now lastUsed = false := by
  rw [PeerChooser.evictStalePeers]
  dsimp only
  rw [Map.lookup_filterMapValues, Option.bind_eq_some_iff]
  constructor
  · rintro ⟨used, hlookup, hkept⟩
    split at hkept
    · cases hkept
    · rename_i hfresh
      cases hkept
      exact ⟨hlookup, eq_false_of_ne_true hfresh⟩
  · rintro ⟨hlookup, hfresh⟩
    exact ⟨lastUsed, hlookup, if_neg (ne_true_of_eq_false hfresh)⟩

theorem Balanced.evictStalePeers (h : Balanced c.calls c.peers) (order : RangeOrder) (releases : String → Bool)
    (now : Time) : Balanced (c.evictStalePeers order releases now).calls (c.evictStalePeers order releases now).peers := by
  have hmem : ∀ addr, addr ∈ ((order.range "evictStalePeers" c.peers).filter
      fun entry => c.isStale now entry.2).map Prod.fst ↔
      ∃ lastUsed, c.peers.lookup addr = some lastUsed ∧ c.isStale now lastUsed = true := by
    intro addr
    simp [RangeOrder.mem_range_iff]
  refine h.release releases ?_ ?_ ?_
  · exact (order.nodup_rangeKeys _ c.peers).sublist (List.filter_sublist.map _)
  · intro addr hreleased
    obtain ⟨lastUsed, hlookup, -⟩ := (hmem addr).mp hreleased
    exact Map.mem_iff_exists_lookup.mpr ⟨lastUsed, hlookup⟩
  · intro addr
    rw [hmem, Map.mem_iff_exists_lookup, Map.mem_iff_exists_lookup]
    simp only [lookup_evictStalePeers]
    cases c.peers.lookup addr <;> simp

theorem Balanced.releasePeers (h : Balanced c.calls c.peers) (order : RangeOrder) (releases : String → Bool) :
    Balanced (c.releasePeers order releases).calls (c.releasePeers order releases).peers := by
  refine h.release releases (order.nodup_rangeKeys _ c.peers) (fun addr => RangeOrder.mem_rangeKeys.mp) fun addr => ?_
  rw [RangeOrder.mem_rangeKeys]
  exact iff_of_false (AList.notMem_empty addr) fun hcached => hcached.2 hcached.1

end Balance

section Safety

open transition

variable {c c' : PeerChooser}

/-- A peer that was handed out is still cached as used since then, unless its TTL
is over or the chooser was stopped. -/
def Kept (c : PeerChooser) (addr : String) (used : Time) : Prop :=
  (∃ lastUsed, c.peers.lookup addr = some lastUsed ∧ used ≤ lastUsed) ∨ used + c.peerTTL < c.clock ∨ c.once = .stopped

/-- What holds along every run. -/
structure Inv (c : PeerChooser) : Prop where
  balanced : Balanced c.calls c.peers
  ttl : 0 ≤ c.peerTTL
  evicting : ∀ now, c.evicting = some now → now ≤ c.clock ∧ c.looping = true
  looping : c.looping = true → c.once = .running ∨ c.once = .stopping
  idle : c.once = .idle → ∀ addr released, .release addr released ∉ c.calls
  used : ∀ addr lastUsed, c.peers.lookup addr = some lastUsed → lastUsed ≤ c.clock
  kept : ∀ addr used, (addr, used) ∈ c.handedOut → Kept c addr used

theorem inv_newSpectatorPeerChooser {peerTTL : Duration} (h : 0 ≤ peerTTL) (clock : Time) :
    Inv (newSpectatorPeerChooser peerTTL clock) where
  balanced _ := rfl
  ttl := h
  evicting _ h := by cases h
  looping h := by cases h
  idle _ _ _ := List.not_mem_nil
  used _ _ h := by cases h
  kept _ _ h := absurd h List.not_mem_nil

theorem lt_of_isStale {now lastUsed : Time} (httl : 0 ≤ c.peerTTL) (h : c.isStale now lastUsed = true) :
    lastUsed + c.peerTTL < now := by
  have hlt : c.peerTTL < now.sub lastUsed := of_decide_eq_true h
  have hmin : Time.minDuration < 0 := by decide
  rcases max_choice Time.minDuration (min Time.maxDuration (now - lastUsed)) with heq | heq
  · rw [Time.sub, heq] at hlt
    linarith
  · rw [Time.sub, heq] at hlt
    have hle := hlt.trans_le (min_le_right _ _)
    linarith

/-- Entries only get later, or go when their TTL is over or with all others. -/
theorem Kept.step {addr : String} {used : Time} (h : Kept c addr used) (httl : c'.peerTTL = c.peerTTL)
    (hclock : c.clock ≤ c'.clock) (hstopped : c.once = .stopped → c'.once = .stopped)
    (hpeers : ∀ lastUsed, c.peers.lookup addr = some lastUsed → Kept c' addr lastUsed) : Kept c' addr used := by
  rcases h with ⟨lastUsed, hlookup, hle⟩ | hover | honce
  · rcases hpeers lastUsed hlookup with ⟨later, hlater, hle'⟩ | hover | honce
    · exact .inl ⟨later, hlater, hle.trans hle'⟩
    · exact .inr (.inl (by linarith))
    · exact .inr (.inr honce)
  · refine .inr (.inl ?_)
    rw [httl]
    exact hover.trans_le hclock
  · exact .inr (.inr (hstopped honce))

theorem Kept.of_eq {addr : String} {used : Time} (h : Kept c addr used) (hpeers : c'.peers = c.peers)
    (httl : c'.peerTTL = c.peerTTL) (hclock : c.clock ≤ c'.clock) (hstopped : c.once = .stopped → c'.once = .stopped) :
    Kept c' addr used :=
  h.step httl hclock hstopped fun lastUsed hlookup => .inl ⟨lastUsed, hpeers ▸ hlookup, le_rfl⟩

/-- An entry after a peer was used is new or was there. -/
theorem lookup_used {addr other : String} {lastUsed : Time}
    (h : (c.peers.insert addr c.clock).lookup other = some lastUsed) :
    lastUsed = c.clock ∨ c.peers.lookup other = some lastUsed := by
  rw [Map.lookup_insert_eq] at h
  split at h
  · exact .inl (Option.some_inj.mp h).symm
  · exact .inr h

theorem Inv.ne_idle (h : Inv c) (hlooping : c.looping = true) : c.once ≠ .idle := by
  intro hidle
  rcases h.looping hlooping with honce | honce
  · cases hidle.symm.trans honce
  · cases hidle.symm.trans honce

theorem Inv.moves {label : Label} (h : Inv c) (hmoves : Moves c label c') : Inv c' := by
  cases hmoves with
  | advance d =>
    have hle : c.clock ≤ c.clock + d := Int.le_add_of_nonneg_right (Int.natCast_nonneg d)
    exact ⟨h.balanced, h.ttl, fun now hnow => (h.evicting now hnow).imp_left hle.trans', h.looping, h.idle,
      fun addr lastUsed hlookup => (h.used addr lastUsed hlookup).trans hle,
      fun addr used hmem => (h.kept addr used hmem).of_eq rfl rfl hle id⟩
  | use addr hcalls =>
    refine { h with balanced := h.balanced.use hcalls c.clock, idle := ?_, used := ?_, kept := ?_ }
    · intro hidle other released hmem
      rcases List.mem_append.mp hmem with hmem | hmem
      · exact h.idle hidle other released hmem
      · rcases hcalls with ⟨-, rfl⟩ | ⟨-, rfl⟩
        · cases hmem
        · cases List.mem_singleton.mp hmem
    · intro other lastUsed hlookup
      rcases lookup_used hlookup with rfl | hlookup
      · exact le_rfl
      · exact h.used other lastUsed hlookup
    · intro other used hmem
      have hnow : ∀ lastUsed ≤ c.clock, (c.peers.lookup other = some lastUsed ∨ other = addr) →
          ∃ later, (c.peers.insert addr c.clock).lookup other = some later ∧ lastUsed ≤ later := by
        intro lastUsed hle hlookup
        rw [Map.lookup_insert_eq]
        split
        · exact ⟨c.clock, rfl, hle⟩
        · rename_i hne
          exact ⟨lastUsed, hlookup.resolve_right hne, le_rfl⟩
      rcases List.mem_append.mp hmem with hmem | hmem
      · exact (h.kept other used hmem).step rfl le_rfl id fun lastUsed hlookup =>
          .inl (hnow lastUsed (h.used other lastUsed hlookup) (.inl hlookup))
      · cases List.mem_singleton.mp hmem
        exact .inl (hnow c.clock le_rfl (.inr rfl))
  | start hidle =>
    refine { h with
      evicting := fun now hnow => ⟨(h.evicting now hnow).1, rfl⟩
      looping := fun _ => .inl rfl
      idle := (by rintro ⟨⟩)
      kept := ?_ }
    refine fun addr used hmem => (h.kept addr used hmem).of_eq rfl rfl le_rfl ?_
    rw [hidle]
    rintro ⟨⟩
  | tick dropped hlooping =>
    refine { h with evicting := ?_ }
    rintro now ⟨⟩
    exact ⟨le_rfl, hlooping⟩
  | evict order releases hevicting =>
    refine { h with
      balanced := h.balanced.evictStalePeers order releases _
      evicting := (by rintro now ⟨⟩)
      idle := fun hidle => ?_
      used := fun addr lastUsed hlookup => h.used addr lastUsed ((lookup_evictStalePeers order releases).mp hlookup).1
      kept := fun addr used hmem => (h.kept addr used hmem).step rfl le_rfl id fun lastUsed hlookup => ?_ }
    · exact absurd hidle (h.ne_idle (h.evicting _ hevicting).2)
    · cases hstale : c.isStale _ lastUsed with
      | true => exact .inr (.inl ((lt_of_isStale h.ttl hstale).trans_le (h.evicting _ hevicting).1))
      | false => exact .inl ⟨lastUsed, (lookup_evictStalePeers order releases).mpr ⟨hlookup, hstale⟩, le_rfl⟩
  | stopIdle hidle =>
    exact { h with
      looping := fun hlooping => absurd hidle (h.ne_idle hlooping)
      idle := (by rintro ⟨⟩)
      kept := fun addr used hmem => .inr (.inr rfl) }
  | stop hrunning =>
    refine { h with looping := fun _ => .inr rfl, idle := (by rintro ⟨⟩), kept := fun addr used hmem => ?_ }
    refine (h.kept addr used hmem).of_eq rfl rfl le_rfl ?_
    rw [hrunning]
    rintro ⟨⟩
  | exitLoop hstopping hevicting =>
    refine { h with evicting := fun now hnow => ?_, looping := (by rintro ⟨⟩) }
    cases hevicting.symm.trans hnow
  | release order releases hstopping hlooping =>
    refine { h with
      balanced := h.balanced.releasePeers order releases
      looping := fun hloop => ?_
      idle := (by rintro ⟨⟩)
      used := (by rintro addr lastUsed ⟨⟩)
      kept := fun addr used hmem => .inr (.inr rfl) }
    cases hlooping.symm.trans hloop
  | none => exact h

/-- A chooser that is stopped releases nothing any more. -/
theorem count_release_of_stopped {label : Label} (h : Inv c) (hstopped : c.once = .stopped) (hmoves : Moves c label c') :
    c'.once = .stopped ∧
      ∀ addr released, c'.calls.count (.release addr released) = c.calls.count (.release addr released) := by
  have hlooping : c.looping ≠ true := by
    intro hlooping
    rcases h.looping hlooping with honce | honce
    · cases hstopped.symm.trans honce
    · cases hstopped.symm.trans honce
  cases hmoves with
  | advance d => exact ⟨hstopped, fun _ _ => rfl⟩
  | use addr hcalls =>
    refine ⟨hstopped, fun other released => ?_⟩
    rcases hcalls with ⟨-, rfl⟩ | ⟨-, rfl⟩
    · exact congrArg _ (List.append_nil _)
    · simp [List.count_append]
  | start hidle => cases hstopped.symm.trans hidle
  | tick dropped hlooping' => exact absurd hlooping' hlooping
  | evict order releases hevicting => exact absurd (h.evicting _ hevicting).2 hlooping
  | stopIdle hidle => cases hstopped.symm.trans hidle
  | stop hrunning => cases hstopped.symm.trans hrunning
  | exitLoop hstopping => cases hstopped.symm.trans hstopping
  | release order releases hstopping => cases hstopped.symm.trans hstopping
  | none => exact ⟨hstopped, fun _ _ => rfl⟩

theorem count_release_of_reaches (h : Inv c) (hstopped : c.once = .stopped) (hrun : Reaches step c c')
    (addr : String) (released : Bool) :
    c'.calls.count (.release addr released) = c.calls.count (.release addr released) := by
  refine (hrun.invariant (fun d => Inv d ∧ d.once = .stopped ∧
    d.calls.count (.release addr released) = c.calls.count (.release addr released)) ?_ ⟨h, hstopped, rfl⟩).2.2
  rintro d label d' ⟨hd, honce, hcount⟩ - hstep
  obtain ⟨honce', hcount'⟩ := count_release_of_stopped hd honce (moves_of_step hstep)
  exact ⟨hd.moves (moves_of_step hstep), honce', (hcount' addr released).trans hcount⟩

/-- Whatever is chosen, evicted and stopped in whatever order and whichever
releases fail: the transport holds exactly one peer for each cached address and
one for each release that failed. A peer stays cached for its TTL after it was
handed out, as long as the chooser is not stopped. Stopping a started chooser
tries to release every cached peer, and stopping one that was never started
releases nothing. Once it is stopped nothing is ever released, although `Choose`
still retains peers. -/
theorem peers_accounted (peerTTL : Duration) (httl : 0 ≤ peerTTL) (clock : Time) (c : PeerChooser)
    (hrun : Reaches step (newSpectatorPeerChooser peerTTL clock) c) :
    Balanced c.calls c.peers ∧
    (∀ addr used, (addr, used) ∈ c.handedOut → c.once ≠ .stopped → c.clock ≤ used + c.peerTTL → addr ∈ c.peers) ∧
    (∀ order releases c', step (.release order releases) c = some c' → ∀ addr,
      c'.calls.count (.retain addr) = c'.calls.count (.release addr true) + c'.calls.count (.release addr false)) ∧
    (c.once = .idle → ∀ stopped, step .stop c = some stopped → ∀ c', Reaches step stopped c' →
      ∀ addr released, .release addr released ∉ c'.calls) ∧
    (c.once = .stopped → ∀ c', Reaches step c c' → ∀ addr released,
      c'.calls.count (.release addr released) = c.calls.count (.release addr released)) := by
  have hinv : Inv c := hrun.invariant Inv (fun _ _ _ h _ hstep => h.moves (moves_of_step hstep))
    (inv_newSpectatorPeerChooser httl clock)
  refine ⟨hinv.balanced, ?_, ?_, ?_, fun hstopped c' => count_release_of_reaches hinv hstopped⟩
  · intro addr used hmem hstopped hfresh
    rcases hinv.kept addr used hmem with ⟨lastUsed, hlookup, -⟩ | hover | honce
    · exact Map.mem_iff_exists_lookup.mpr ⟨lastUsed, hlookup⟩
    · exact absurd hfresh (not_le.mpr hover)
    · exact absurd honce hstopped
  · intro order releases c' hstep addr
    have hbalanced := (hinv.moves (moves_of_step hstep)).balanced addr
    dsimp only [step] at hstep
    split at hstep
    · cases hstep
      exact hbalanced
    · cases hstep
  · intro hidle stopped hstop c' hlater addr released
    have hstopped := hinv.moves (moves_of_step hstop)
    simp only [step, hidle, Option.some.injEq] at hstop
    subst hstop
    rw [← List.count_eq_zero, count_release_of_reaches hstopped rfl hlater, List.count_eq_zero]
    exact hinv.idle hidle addr released

/-- A spectator of one namespace with one executor. -/
def spectators : Spectators :=
  Map.ofList [("orders", fun _ => .ok ⟨"a", Map.ofList [(grpcAddressMetadataKey, "host:1")]⟩)]

def request : Request := ⟨"s", Map.ofList [(namespaceHeader, "orders")]⟩

/-- A peer is used once and survives the next two evictions. -/
def idling : List Label :=
  [.start, .advance 1, .choose spectators request false, .advance 4, .tick 0, .evict .stored fun _ => true,
    .advance 5, .tick 0, .evict .stored fun _ => true, .advance 5]

theorem peers_accounted_idling : ∃ c : PeerChooser, Reaches step (newSpectatorPeerChooser 10 0) c ∧
    Balanced c.calls c.peers ∧ c.peers.lookup "host:1" = some 1 ∧ c.calls = [.retain "host:1"] := by
  have heval : (idling.foldlM (fun c label => step label c) (newSpectatorPeerChooser 10 0)).map (fun c =>
      decide (c.peers.lookup "host:1" = some 1 ∧ c.calls = [.retain "host:1"])) = some true := by decide +kernel
  obtain ⟨c, hfold, hc⟩ := Option.map_eq_some_iff.mp heval
  obtain ⟨hlookup, hcalls⟩ := of_decide_eq_true hc
  have hrun := reaches_of_foldlM hfold
  exact ⟨c, hrun, (peers_accounted 10 (by decide) 0 c hrun).1, hlookup, hcalls⟩

end Safety

section Timeliness

open transition

variable {c c' : PeerChooser}

/-- The loop is scheduled in time: it evicts as soon as its ticker fires, which
does so on time. Nothing is chosen before the start. -/
def Timely (c : PeerChooser) : Label → Prop
  | .advance d => c.looping = true → c.evicting = none ∧ c.clock + d ≤ c.nextTick
  | .tick dropped => dropped = 0
  | .start => c.once = .idle → c.peers = ∅
  | _ => True

/-- Every entry was used since the TTL before the last eviction. -/
structure Fresh (c : PeerChooser) : Prop where
  bounded : c.peerTTL < Time.maxDuration
  clock_le : c.looping = true → c.clock ≤ c.nextTick
  le_clock : c.looping = true → c.nextTick ≤ c.clock + c.peerTTL.tdiv 2
  waiting : c.looping = true → c.evicting = none → ∀ addr lastUsed, c.peers.lookup addr = some lastUsed →
    c.nextTick ≤ lastUsed + c.peerTTL + c.peerTTL.tdiv 2
  evicting : ∀ now, c.evicting = some now → now = c.clock ∧ c.nextTick = c.clock + c.peerTTL.tdiv 2 ∧
    ∀ addr lastUsed, c.peers.lookup addr = some lastUsed → c.clock ≤ lastUsed + c.peerTTL + c.peerTTL.tdiv 2

theorem le_of_not_isStale (h : Fresh c) {now lastUsed : Time} (hfresh : c.isStale now lastUsed = false) :
    now ≤ lastUsed + c.peerTTL := by
  have hle : now.sub lastUsed ≤ c.peerTTL := not_lt.mp (of_decide_eq_false hfresh)
  rcases min_le_iff.mp ((le_max_right _ _).trans hle) with hsaturated | hshort
  · exact absurd h.bounded (not_lt.mpr hsaturated)
  · linarith

theorem Fresh.moves {label : Label} (h : Fresh c) (hinv : Inv c) (htimely : Timely c label)
    (hmoves : Moves c label c') : Fresh c' := by
  have httl := hinv.ttl
  have hhalf : 0 ≤ c.peerTTL.tdiv 2 := Int.tdiv_nonneg httl (by decide)
  cases hmoves with
  | advance d =>
    have hd : (0 : ℤ) ≤ d := Int.natCast_nonneg d
    refine ⟨h.bounded, fun hloop => (htimely hloop).2, fun hloop => ?_, h.waiting, fun now hnow => ?_⟩
    · have hle := h.le_clock hloop
      dsimp only
      linarith
    · cases (htimely (hinv.evicting now hnow).2).1.symm.trans hnow
  | use addr =>
    refine ⟨h.bounded, h.clock_le, h.le_clock, fun hloop hwaiting other lastUsed hlookup => ?_, fun now hnow => ?_⟩
    · rcases lookup_used hlookup with rfl | hlookup
      · have hle := h.le_clock hloop
        dsimp only
        linarith
      · exact h.waiting hloop hwaiting other lastUsed hlookup
    · obtain ⟨heq, hnext, hentries⟩ := h.evicting now hnow
      refine ⟨heq, hnext, fun other lastUsed hlookup => ?_⟩
      rcases lookup_used hlookup with rfl | hlookup
      · dsimp only
        linarith
      · exact hentries other lastUsed hlookup
  | start hidle =>
    refine ⟨h.bounded, fun _ => ?_, fun _ => le_rfl, fun _ _ addr lastUsed hlookup => ?_, fun now hnow => ?_⟩
    · dsimp only
      linarith
    · dsimp only at hlookup
      rw [htimely hidle] at hlookup
      cases hlookup
    · exact absurd hidle (hinv.ne_idle (hinv.evicting now hnow).2)
  | tick dropped hlooping hevicting hdue =>
    cases htimely
    have hnow : c.nextTick = c.clock := le_antisymm hdue (h.clock_le hlooping)
    have hnext : c.nextTick + ((0 : ℕ) + 1) * c.peerTTL.tdiv 2 = c.clock + c.peerTTL.tdiv 2 := by
      rw [hnow, Nat.cast_zero, zero_add, one_mul]
    refine ⟨h.bounded, fun _ => ?_, fun _ => hnext.le, (by rintro - ⟨⟩), ?_⟩
    · dsimp only
      rw [hnext]
      linarith
    · rintro now ⟨⟩
      refine ⟨rfl, hnext, fun addr lastUsed hlookup => ?_⟩
      exact hnow ▸ h.waiting hlooping hevicting addr lastUsed hlookup
  | evict order releases hevicting =>
    obtain ⟨rfl, hnext, -⟩ := h.evicting _ hevicting
    refine ⟨h.bounded, h.clock_le, h.le_clock, fun _ _ addr lastUsed hlookup => ?_, (by rintro now ⟨⟩)⟩
    have hle := le_of_not_isStale h ((lookup_evictStalePeers order releases).mp hlookup).2
    dsimp only [PeerChooser.evictStalePeers]
    linarith
  | stopIdle => exact { h with }
  | stop => exact { h with }
  | exitLoop => exact ⟨h.bounded, (by rintro ⟨⟩), (by rintro ⟨⟩), (by rintro ⟨⟩), h.evicting⟩
  | release order releases hstopping hlooping =>
    refine ⟨h.bounded, h.clock_le, h.le_clock, (by rintro - - addr lastUsed ⟨⟩), fun now hnow => ?_⟩
    cases hlooping.symm.trans (hinv.evicting now hnow).2
  | none => exact h

/-- As long as the loop runs, no peer stays in the map for longer than one and a
half times its TTL after its last use. -/
theorem evicted_in_time (peerTTL : Duration) (httl : 0 ≤ peerTTL) (hbounded : peerTTL < Time.maxDuration)
    (clock : Time) (c : PeerChooser) (hrun : Run step Timely (newSpectatorPeerChooser peerTTL clock) c)
    (hlooping : c.looping = true) (addr : String) (lastUsed : Time) (hlookup : c.peers.lookup addr = some lastUsed) :
    c.clock ≤ lastUsed + c.peerTTL + c.peerTTL.tdiv 2 := by
  have hinv : Inv c ∧ Fresh c := by
    refine hrun.invariant (fun c => Inv c ∧ Fresh c) ?_ ?_
    · rintro c label c' ⟨hinv, hfresh⟩ htimely hstep
      exact ⟨hinv.moves (moves_of_step hstep), hfresh.moves hinv htimely (moves_of_step hstep)⟩
    · exact ⟨inv_newSpectatorPeerChooser httl clock, hbounded, (by rintro ⟨⟩), (by rintro ⟨⟩), (by rintro ⟨⟩),
        (by rintro now ⟨⟩)⟩
  obtain ⟨-, hfresh⟩ := hinv
  cases hevicting : c.evicting with
  | none => exact (hfresh.clock_le hlooping).trans (hfresh.waiting hlooping hevicting addr lastUsed hlookup)
  | some now => exact (hfresh.evicting now hevicting).2.2 addr lastUsed hlookup

/-- Whether a step of a run is timely. -/
def isTimely (c : PeerChooser) : Label → Bool
  | .advance d => !c.looping || c.evicting.isNone && decide (c.clock + d ≤ c.nextTick)
  | .tick dropped => dropped == 0
  | .start => c.peers.keys.isEmpty
  | _ => true

theorem timely_of_isTimely (c : PeerChooser) (label : Label) (h : isTimely c label = true) : Timely c label := by
  cases label with
  | advance d =>
    intro hlooping
    rw [isTimely, hlooping, Bool.not_true, Bool.false_or, Bool.and_eq_true] at h
    exact ⟨Option.isNone_iff_eq_none.mp h.1, of_decide_eq_true h.2⟩
  | tick dropped => exact eq_of_beq h
  | start => exact fun _ => AList.ext (List.map_eq_nil_iff.mp (List.isEmpty_iff.mp h))
  | _ => trivial

theorem evicted_in_time_idling : ∃ c : PeerChooser, Run step Timely (newSpectatorPeerChooser 10 0) c ∧
    c.clock = 15 ∧ c.peers.lookup "host:1" = some 1 ∧ c.clock ≤ 1 + c.peerTTL + c.peerTTL.tdiv 2 := by
  have heval : (idling.foldlM (fun c label => if isTimely c label then step label c else none)
      (newSpectatorPeerChooser 10 0)).map (fun c =>
      decide (c.clock = 15 ∧ c.peers.lookup "host:1" = some 1 ∧ c.looping = true)) = some true := by decide +kernel
  obtain ⟨c, hfold, hc⟩ := Option.map_eq_some_iff.mp heval
  obtain ⟨hclock, hlookup, hlooping⟩ := of_decide_eq_true hc
  have hrun := run_of_foldlM isTimely timely_of_isTimely hfold
  exact ⟨c, hrun, hclock, hlookup,
    evicted_in_time 10 (by decide) (by decide) 0 c hrun hlooping "host:1" 1 hlookup⟩

end Timeliness

end peerchooser
