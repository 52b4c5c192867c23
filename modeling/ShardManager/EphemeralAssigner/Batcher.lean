import ShardManager.Abstract.Transition
import ShardManager.Golang.Map

open golang

namespace batcher

/-- One caller's request. The source tells requests apart by their pointers,
here they carry the number in which they were made. -/
structure BatchRequest where
  id : Nat
  shardKey : String
deriving DecidableEq, Repr

structure GetShardOwnerResponse where
  owner : String
  ns : String
  metadata : Map String String

inductive BatchError where
  /-- What `processBatch` fails with. -/
  | failed (message : String)
  | shardDrained (ns shardKey : String)
  | internalService (message : String)
  | canceled
deriving DecidableEq, Repr

structure BatchResponse where
  resp : Option GetShardOwnerResponse
  err : Option BatchError

/-- What `processBatch` returns. The pointers in `results` may be nil. -/
structure FlushResult where
  results : Map String (Option GetShardOwnerResponse)
  drained : KeySet String
  err : Option BatchError

/-- Picks one caller's outcome out of a whole batch's result. -/
def toBatchResponse (ns : String) (res : FlushResult) (shardKey : String) : BatchResponse :=
  match res.err with
  | some err => ⟨none, some err⟩
  | none =>
    if shardKey ∈ res.drained then ⟨none, some (.shardDrained ns shardKey)⟩
    else match (res.results.lookup shardKey).join with
      | none => ⟨none, some (.internalService ("batch processor returned no result for shard key: " ++ shardKey))⟩
      | some resp => ⟨some resp, none⟩

/-- The answer to a request that was never flushed, `ctx.Err()`. -/
def cancellation : BatchResponse := ⟨none, some .canceled⟩

def requestsChannelLimit : Nat := 1024

/-- The loop selects, waits in `drainAndCancel` for the flush in flight, scans
the request channel, or has returned. -/
inductive Phase where
  | running
  | waiting
  | scanning
  | exited
deriving DecidableEq, Repr

/-- The loop with the goroutines and channels around it. A nil slice is the
empty list: no slice of the loop is empty without being nil. -/
structure ShardBatcher where
  requestChan : List BatchRequest
  /-- The number of requests made so far. -/
  nextID : Nat
  /-- `ctx` is done. -/
  cancelled : Bool
  phase : Phase
  inflight : List BatchRequest
  pending : List BatchRequest
  scheduled : Bool
  /-- The goroutines of `scheduleFlush`. -/
  timers : Nat
  /-- The slot of `flushReady`. -/
  flushReady : Bool
  /-- The goroutines of `startFlush`, each with the requests whose keys it has. -/
  flushes : List (List BatchRequest)
  /-- The slot of `flushDone`. -/
  flushDone : Option FlushResult
  /-- The slots of the response channels that hold a response. -/
  respChans : List (BatchRequest × BatchResponse)
  -- What has happened so far, kept for reasoning only.
  /-- The requests taken from the channel. -/
  received : List BatchRequest
  /-- The batches of all flushes started. -/
  batches : List (List BatchRequest)
  /-- The results of the flushes that have finished. -/
  flushed : List (List BatchRequest × FlushResult)
  /-- The responses written. -/
  answers : List (BatchRequest × BatchResponse)

def newShardBatcher : ShardBatcher where
  requestChan := []
  nextID := 0
  cancelled := false
  phase := .running
  inflight := []
  pending := []
  scheduled := false
  timers := 0
  flushReady := false
  flushes := []
  flushDone := none
  respChans := []
  received := []
  batches := []
  flushed := []
  answers := []

def scheduleFlush (b : ShardBatcher) : ShardBatcher :=
  { b with timers := b.timers + 1 }

def startFlush (reqs : List BatchRequest) (b : ShardBatcher) : ShardBatcher :=
  { b with flushes := b.flushes ++ [reqs], batches := b.batches ++ [reqs] }

/-- The pending requests are the next batch. -/
def flushPending (b : ShardBatcher) : ShardBatcher :=
  startFlush b.pending { b with inflight := b.pending, pending := [] }

/-- Writes to the response channel of a request. This blocks while the channel
holds a response. -/
def writeResponse (resp : BatchResponse) (req : BatchRequest) (b : ShardBatcher) : Option ShardBatcher :=
  if req ∈ b.respChans.map Prod.fst then none
  else some { b with respChans := b.respChans ++ [(req, resp)], answers := b.answers ++ [(req, resp)] }

def writeResponses (resp : BatchRequest → BatchResponse) (reqs : List BatchRequest) (b : ShardBatcher) :
    Option ShardBatcher :=
  reqs.foldlM (fun b req => writeResponse (resp req) req b) b

def deliverResults (ns : String) (reqs : List BatchRequest) (res : FlushResult) (b : ShardBatcher) :
    Option ShardBatcher :=
  writeResponses (fun req => toBatchResponse ns res req.shardKey) reqs b

/-- Cancels the pending requests that never got flushed. -/
def cancelPending (b : ShardBatcher) : Option ShardBatcher :=
  (writeResponses (fun _ => cancellation) b.pending b).map fun b => { b with pending := [], phase := .scanning }

inductive Label where
  /-- A caller of `Submit` enqueues its request. -/
  | submit (shardKey : String)
  /-- A caller takes its response. -/
  | takeResponse (req : BatchRequest)
  /-- `Stop` is called. -/
  | stop
  /-- The coalescing window is over. -/
  | timerFires
  /-- `scheduleFlush` sees that `ctx` is done. -/
  | timerStops
  /-- `processBatch` returns. -/
  | flushReturns (i : Nat) (res : FlushResult)
  -- The cases of the loop's select.
  | receive
  | flushReady
  | flushDone
  | cancel
  -- The steps of `drainAndCancel`.
  | drain
  | scan

/-- What the callers do. Everything else is up to the batcher. -/
def Label.External : Label → Bool
  | .submit _ | .takeResponse _ | .stop => true
  | _ => false

/-- Between two waits the loop makes one step, since nobody else has access to
its variables. -/
def step (ns : String) : Label → ShardBatcher → Option ShardBatcher
  | .submit shardKey, b =>
    if b.requestChan.length < requestsChannelLimit then
      some { b with requestChan := b.requestChan ++ [⟨b.nextID, shardKey⟩], nextID := b.nextID + 1 }
    else none
  | .takeResponse req, b => some { b with respChans := b.respChans.filter fun slot => slot.1 ≠ req }
  | .stop, b => some { b with cancelled := true }
  | .timerFires, b =>
    if 0 < b.timers ∧ b.flushReady = false then some { b with timers := b.timers - 1, flushReady := true } else none
  | .timerStops, b =>
    if 0 < b.timers ∧ b.cancelled = true then some { b with timers := b.timers - 1 } else none
  | .flushReturns i res, b =>
    match b.flushes[i]?, b.flushDone with
    | some reqs, none => some { b with
        flushes := b.flushes.eraseIdx i
        flushDone := some res
        flushed := b.flushed ++ [(reqs, res)] }
    | _, _ => none
  | .receive, b =>
    match b.phase, b.requestChan with
    | .running, req :: requestChan =>
      let b := { b with requestChan, pending := b.pending ++ [req], received := b.received ++ [req] }
      some (if b.inflight = [] ∧ b.scheduled = false then scheduleFlush { b with scheduled := true } else b)
    | _, _ => none
  | .flushReady, b =>
    if b.phase = .running ∧ b.flushReady = true then
      some (flushPending { b with flushReady := false, scheduled := false })
    else none
  | .flushDone, b =>
    match b.phase, b.flushDone with
    | .running, some res =>
      (deliverResults ns b.inflight res { b with flushDone := none }).map fun b =>
        let b := { b with inflight := [] }
        if b.pending = [] then b else flushPending b
    | _, _ => none
  | .cancel, b =>
    if b.phase = .running ∧ b.cancelled = true then
      if b.inflight = [] then cancelPending b else some { b with phase := .waiting }
    else none
  | .drain, b =>
    match b.phase, b.flushDone with
    | .waiting, some res =>
      (deliverResults ns b.inflight res { b with flushDone := none }).bind fun b =>
        cancelPending { b with inflight := [] }
    | _, _ => none
  | .scan, b =>
    match b.phase, b.requestChan with
    | .scanning, req :: requestChan =>
      writeResponse cancellation req { b with requestChan, received := b.received ++ [req] }
    | .scanning, [] => some { b with phase := .exited }
    | _, _ => none

end batcher
