import ShardManager.Cache.ShardCache

open golang etcd etcdkeys store executorstore cache handler

namespace stream

open etcdtypes (Value Encoding)

variable {F : Type}

/-- The watch of the namespace: not there, just made by `Watch` with the signal
still to follow, or being received from. Each entry of the queue is what one
transaction did. -/
inductive Watcher (F : Type) where
  | down
  | established (queue : List (List (Event (Value F))))
  | receiving (queue : List (List (Event (Value F))))

def Watcher.push (events : List (Event (Value F))) : Watcher F → Watcher F
  | .down => .down
  | .established queue => .established (queue ++ [events])
  | .receiving queue => .receiving (queue ++ [events])

/-- A refresh in progress: about to read, about to replace the maps, or about
to notify the subscribers. -/
inductive Refresh where
  | started
  | read (state : AssignmentState)
  | replaced (updated : Bool)

inductive Outcome where
  | going (refresh : Refresh)
  | finished (failed : Bool)

/-- The refresh loop of the cache. -/
inductive Background where
  | waiting (failed : Bool)
  | refreshing (refresh : Refresh)

/-- The loop after a step of its refresh. -/
def Outcome.background : Outcome → Background
  | .going refresh => .refreshing refresh
  | .finished failed => .waiting failed

/-- The refreshes after cache misses when one of them has made a step. -/
def Outcome.misses (i : Nat) (misses : List Refresh) : Outcome → List Refresh
  | .going refresh => misses.set i refresh
  | .finished _ => misses.eraseIdx i

/-- A response with the revision of the cache it was made from. The revision is
kept for reasoning only. -/
structure Sent where
  response : WatchNamespaceStateResponse
  revision : Int

/-- A stream: not there, about to take a snapshot, sending, or waiting to be
notified. -/
inductive Subscriber where
  | absent
  | preparing
  | sending (sent : Sent)
  | waiting

/-- One namespace from its store to one stream. -/
structure System (F : Type) where
  writers : Writers F
  watcher : Watcher F
  /-- The slot of the change channel. -/
  signal : Bool
  background : Background
  /-- Refreshes after cache misses. -/
  misses : List Refresh
  cache : ShardCache
  /-- The slot of the stream's notify channel. -/
  token : Bool
  subscriber : Subscriber
  /-- The last response sent on the stream. -/
  sent : Option Sent
  /-- The revision of the last change that the watch has to report, kept for
  reasoning only. -/
  changed : Int

/-- An empty store that nobody looks at. -/
def initial : System F where
  writers := ⟨.empty, []⟩
  watcher := .down
  signal := false
  background := .waiting false
  misses := []
  cache := newShardCache
  token := false
  subscriber := .absent
  sent := none
  changed := 1

abbrev System.store (sys : System F) : Store (Value F) := sys.writers.store

inductive Label (F : Type) where
  /-- An operation of the store. -/
  | write (label : Write F)
  /-- `Watch` returns a new watch. -/
  | watch
  /-- The signal that follows `Watch`. -/
  | watchSignal
  /-- A watch response with what the next transactions did. -/
  | receive (n : Nat)
  | watchFails
  /-- The refresh loop wakes up, by the signal or by its timer. -/
  | wake (timer : Bool)
  /-- The next step of the refresh loop's refresh. -/
  | refresh (order : RangeOrder) (fails : Bool)
  /-- A cache miss starts a refresh. -/
  | miss
  | refreshMiss (i : Nat) (order : RangeOrder) (fails : Bool)
  | subscribe
  /-- The stream takes a snapshot of the cache. -/
  | snapshot (order : RangeOrder)
  /-- `Send` returns. -/
  | sendDone
  /-- The stream takes the notification. -/
  | receiveToken
  /-- The stream ends. -/
  | close

section Step

variable (pre ns : String) [Float64 F] [DecidableEq F] [Encoding F]

/-- What the namespace watch delivers about a change of the store. -/
def watched (s s' : Store (Value F)) : List (Event (Value F)) :=
  (changes s s').filter fun event => hasPrefix event.key (buildNamespacePrefix pre ns)

/-- The system after its store has changed. -/
def stored (writers : Writers F) (sys : System F) : System F :=
  let events := watched pre ns sys.store writers.store
  { sys with
    writers
    watcher := if events.isEmpty then sys.watcher else sys.watcher.push events
    changed := if hasNamespaceStateChanged pre ns events then writers.store.revision else sys.changed }

/-- One step of a refresh, the cache after it, and whether the subscribers have
been notified. -/
def Refresh.advance (order : RangeOrder) (fails : Bool) (s : Store (Value F)) (c : ShardCache) :
    Refresh → Outcome × ShardCache × Bool
  | .started =>
    if fails then (.finished true, c, false)
    else match getAssignmentState pre ns s with
      | .error _ => (.finished true, c, false)
      | .ok state => (.going (.read state), c, false)
  | .read state =>
    let (updated, c) := applyNamespaceState order state c
    (.going (.replaced updated), c, false)
  | .replaced updated => (.finished false, c, updated)

/-- A notification fills the slot of a stream that has subscribed. -/
def Subscriber.notified (subscriber : Subscriber) (notify token : Bool) : Bool :=
  match subscriber with
  | .absent => token
  | _ => token || notify

def step : Label F → System F → Option (System F)
  | .write label, sys => (write pre ns label sys.writers).map fun writers => stored pre ns writers sys
  | .watch, sys =>
    match sys.watcher with
    | .down => some { sys with watcher := .established [] }
    | _ => none
  | .watchSignal, sys =>
    match sys.watcher with
    | .established queue => some { sys with watcher := .receiving queue, signal := true }
    | _ => none
  | .receive n, sys =>
    match sys.watcher with
    | .receiving queue => some { sys with
        watcher := .receiving (queue.drop n)
        signal := sys.signal || hasNamespaceStateChanged pre ns (queue.take n).flatten }
    | _ => none
  -- The loop notices a failure when it receives, so the signal has been sent by then.
  | .watchFails, sys =>
    match sys.watcher with
    | .receiving _ => some { sys with watcher := .down }
    | _ => none
  | .wake timer, sys =>
    match sys.background with
    | .waiting _ =>
      if timer then some { sys with background := .refreshing .started }
      else if sys.signal then some { sys with signal := false, background := .refreshing .started }
      else none
    | .refreshing _ => none
  | .refresh order fails, sys =>
    match sys.background with
    | .refreshing refresh =>
      let (outcome, cache, notify) := refresh.advance pre ns order fails sys.store sys.cache
      some { sys with
        background := outcome.background
        cache
        token := sys.subscriber.notified notify sys.token }
    | .waiting _ => none
  | .miss, sys => some { sys with misses := sys.misses ++ [.started] }
  | .refreshMiss i order fails, sys =>
    match sys.misses[i]? with
    | some refresh =>
      let (outcome, cache, notify) := refresh.advance pre ns order fails sys.store sys.cache
      some { sys with
        misses := outcome.misses i sys.misses
        cache
        token := sys.subscriber.notified notify sys.token }
    | none => none
  | .subscribe, sys =>
    match sys.subscriber with
    | .absent => some { sys with subscriber := .preparing }
    | _ => none
  | .snapshot order, sys =>
    match sys.subscriber with
    | .preparing => some { sys with
        subscriber := .sending ⟨watchResponse order sys.cache, sys.cache.lastRevision⟩ }
    | _ => none
  | .sendDone, sys =>
    match sys.subscriber with
    | .sending sent => some { sys with subscriber := .waiting, sent := some sent }
    | _ => none
  | .receiveToken, sys =>
    match sys.subscriber with
    | .waiting => if sys.token then some { sys with subscriber := .preparing, token := false } else none
    | _ => none
  | .close, sys => some { sys with subscriber := .absent, token := false, sent := none }

end Step

end stream
