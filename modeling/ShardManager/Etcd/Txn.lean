import ShardManager.Etcd.Store

open golang

namespace etcd

/-- The comparisons used in transaction conditions, all with `=`. -/
inductive Cmp (V : Type) where
  | modRevision (key : String) (revision : Int)
  | value (key : String) (value : V)
deriving DecidableEq, Repr

inductive Op (V : Type) where
  | put (key : String) (value : V)
  | delete (range : Range)
  | get (range : Range)
deriving DecidableEq, Repr

/-- An operation of a transaction branch, possibly a nested transaction. Every
nested transaction here has flat branches. -/
inductive RequestOp (V : Type) where
  | op (op : Op V)
  | txn (cmps : List (Cmp V)) (thens elses : List (Op V))
deriving DecidableEq, Repr

structure Txn (V : Type) where
  cmps : List (Cmp V)
  thens : List (RequestOp V)
  elses : List (RequestOp V)
deriving DecidableEq, Repr

inductive OpResponse (V : Type) where
  | put
  | deleteRange (deleted : Nat)
  | range (kvs : List (String × KeyValue V))
deriving DecidableEq, Repr

inductive Response (V : Type) where
  | op (response : OpResponse V)
  | txn (succeeded : Bool) (responses : List (OpResponse V))
deriving DecidableEq, Repr

structure TxnResponse (V : Type) where
  succeeded : Bool
  responses : List (Response V)
deriving DecidableEq, Repr

/-- A watch event. A delete carries no new value. -/
structure Event (V : Type) where
  key : String
  kv : Option (KeyValue V)
  prevKv : Option (KeyValue V)
deriving DecidableEq, Repr

variable {V : Type}

def Op.putKey? : Op V → Option String
  | .put key _ => some key
  | _ => none

def Op.deleteRange? : Op V → Option Range
  | .delete range => some range
  | _ => none

def putKeys (ops : List (Op V)) : List String := ops.filterMap Op.putKey?

def deleteRanges (ops : List (Op V)) : List Range := ops.filterMap Op.deleteRange?

def RequestOp.op? : RequestOp V → Option (Op V)
  | .op o => some o
  | .txn .. => none

section Check

/-- The keys a transaction branch puts and the ranges it deletes. -/
structure Intervals where
  puts : List String
  dels : List Range

/-- A put must not meet another put of its key nor a deleted range. -/
def Intervals.addPut (iv : Intervals) (key : String) : Option Intervals :=
  if iv.puts.contains key || iv.dels.any (·.contains key) then none
  else some { iv with puts := key :: iv.puts }

def Intervals.addPuts (iv : Intervals) (keys : List String) : Option Intervals :=
  keys.foldlM Intervals.addPut iv

def checkOps (ops : List (Op V)) : Option Intervals :=
  Intervals.addPuts ⟨[], deleteRanges ops⟩ (putKeys ops)

def checkChild (iv : Intervals) : RequestOp V → Option Intervals
  | .op _ => some iv
  | .txn _ thens elses => do
    let thenIv ← checkOps thens
    let elseIv ← checkOps elses
    let iv ← iv.addPuts thenIv.puts
    -- The branches exclude each other, so a key put by both is no clash.
    let iv ← iv.addPuts (elseIv.puts.filter fun key => !thenIv.puts.contains key)
    some { iv with dels := iv.dels ++ thenIv.dels ++ elseIv.dels }

/-- The server's admission check of one branch: deletes of this level first,
then nested transactions, then the puts of this level. -/
def checkIntervals (reqs : List (RequestOp V)) : Option Intervals := do
  let ops := reqs.filterMap RequestOp.op?
  let iv ← reqs.foldlM checkChild ⟨[], deleteRanges ops⟩
  iv.addPuts (putKeys ops)

def Txn.accepted (t : Txn V) : Bool :=
  (checkIntervals t.thens).isSome && (checkIntervals t.elses).isSome

end Check

/-- The state of a transaction while its operations are applied. -/
structure Draft (V : Type) where
  kvs : Map String (KeyValue V)
  events : List (Event V)

def Draft.put (d : Draft V) (revision : Int) (key : String) (value : V) : Draft V where
  kvs := d.kvs.insert key ⟨value, revision⟩
  events := d.events ++ [⟨key, some ⟨value, revision⟩, d.kvs.lookup key⟩]

def Draft.delete (d : Draft V) (range : Range) : Draft V where
  kvs := d.kvs.filterKeys fun key => !range.contains key
  events := d.events ++
    (d.kvs.filterKeys range.contains).toList.map fun e => ⟨e.1, none, some e.2⟩

def Op.apply (revision : Int) (d : Draft V) : Op V → Draft V × OpResponse V
  | .put key value => (d.put revision key value, .put)
  | .delete range =>
    (d.delete range, .deleteRange (d.kvs.filterKeys range.contains).entries.length)
  | .get range => (d, .range (d.kvs.filterKeys range.contains).toList)

def applyOps (revision : Int) : Draft V → List (Op V) → Draft V × List (OpResponse V)
  | d, [] => (d, [])
  | d, op :: ops =>
    let (d, response) := op.apply revision d
    let (d, responses) := applyOps revision d ops
    (d, response :: responses)

variable [DecidableEq V]

/-- A missing key compares as revision 0 and fails every value comparison. -/
def Cmp.holds (s : Store V) : Cmp V → Bool
  | .modRevision key rev => decide (s.modRevision key = rev)
  | .value key expected =>
    match s.get key with
    | some kv => decide (kv.value = expected)
    | none => false

def cmpsHold (s : Store V) (cmps : List (Cmp V)) : Bool :=
  cmps.all (·.holds s)

/-- Conditions of nested transactions are evaluated, like the outer ones, on
the state before the transaction. -/
def RequestOp.apply (s : Store V) (d : Draft V) : RequestOp V → Draft V × Response V
  | .op o =>
    let (d, response) := o.apply (s.revision + 1) d
    (d, .op response)
  | .txn cmps thens elses =>
    let succeeded := cmpsHold s cmps
    let (d, responses) := applyOps (s.revision + 1) d (if succeeded then thens else elses)
    (d, .txn succeeded responses)

def applyRequests (s : Store V) :
    Draft V → List (RequestOp V) → Draft V × List (Response V)
  | d, [] => (d, [])
  | d, req :: reqs =>
    let (d, response) := req.apply s d
    let (d, responses) := applyRequests s d reqs
    (d, response :: responses)

/-- The operations of a branch with its nested conditions decided. -/
def flatten (s : Store V) (reqs : List (RequestOp V)) : List (Op V) :=
  reqs.flatMap fun
    | .op op => [op]
    | .txn cmps thens elses => if cmpsHold s cmps then thens else elses

def Txn.branch (t : Txn V) (s : Store V) : List (RequestOp V) :=
  if cmpsHold s t.cmps then t.thens else t.elses

section Bounds

/-- Revisions in a draft never exceed that of the transaction being applied. -/
def Draft.Bounded (d : Draft V) (revision : Int) : Prop :=
  ∀ {key : String} {kv : KeyValue V}, d.kvs.lookup key = some kv →
    0 < kv.modRevision ∧ kv.modRevision ≤ revision

omit [DecidableEq V] in
theorem Op.apply_bounded {revision : Int} (hpos : 0 < revision) {d : Draft V}
    (hd : d.Bounded revision) (op : Op V) : (op.apply revision d).1.Bounded revision := by
  cases op with
  | put key value =>
    intro key' kv h
    change (d.kvs.insert key ⟨value, revision⟩).lookup key' = some kv at h
    rw [Map.lookup_insert_eq] at h
    split at h
    · cases h
      exact ⟨hpos, le_refl _⟩
    · exact hd h
  | delete range =>
    intro key' kv h
    change (d.kvs.filterKeys _).lookup key' = some kv at h
    rw [Map.lookup_filterKeys] at h
    split at h
    · exact hd h
    · cases h
  | get range => exact hd

omit [DecidableEq V] in
theorem applyOps_bounded {revision : Int} (hpos : 0 < revision) {d : Draft V}
    (hd : d.Bounded revision) (ops : List (Op V)) :
    (applyOps revision d ops).1.Bounded revision := by
  induction ops generalizing d with
  | nil => exact hd
  | cons op ops ih => exact ih (Op.apply_bounded hpos hd op)

omit [DecidableEq V] in
theorem applyOps_append (revision : Int) (d : Draft V) (ops ops' : List (Op V)) :
    (applyOps revision d (ops ++ ops')).1 =
      (applyOps revision (applyOps revision d ops).1 ops').1 := by
  induction ops generalizing d with
  | nil => rfl
  | cons op ops ih => exact ih _

/-- Applying requests is applying their operations one after another. -/
theorem applyRequests_eq_applyOps (s : Store V) (d : Draft V) (reqs : List (RequestOp V)) :
    (applyRequests s d reqs).1 = (applyOps (s.revision + 1) d (flatten s reqs)).1 := by
  induction reqs generalizing d with
  | nil => rfl
  | cons req reqs ih =>
    change (applyRequests s (req.apply s d).1 reqs).1 = _
    rw [ih]
    cases req with
    | op op => rfl
    | txn cmps thens elses =>
      change _ = (applyOps _ d ((if cmpsHold s cmps then thens else elses) ++ flatten s reqs)).1
      rw [applyOps_append]
      rfl

end Bounds

def Txn.draft (t : Txn V) (s : Store V) : Draft V :=
  (applyRequests s ⟨s.kvs, []⟩ (t.branch s)).1

theorem Txn.draft_bounded (t : Txn V) (s : Store V) : (t.draft s).Bounded (s.revision + 1) := by
  have hpos : 0 < s.revision + 1 := by
    have := s.revision_pos
    omega
  rw [Txn.draft, applyRequests_eq_applyOps]
  apply applyOps_bounded hpos
  intro key kv h
  have := s.bounded h
  omega

/-- The store after a transaction. The revision moves only when a key was put
or removed. -/
def Txn.next (t : Txn V) (s : Store V) : Store V :=
  if (t.draft s).events.isEmpty then s
  else
    { kvs := (t.draft s).kvs
      revision := s.revision + 1
      revision_pos := by
        have := s.revision_pos
        omega
      bounded := t.draft_bounded s }

structure Committed (V : Type) where
  store : Store V
  events : List (Event V)
  response : TxnResponse V

/-- Commit atomically. `none` is the server rejecting a request that gives a key
twice, which happens before any condition is looked at. -/
def Txn.commit (t : Txn V) (s : Store V) : Option (Committed V) :=
  if t.accepted then
    some
      { store := t.next s
        events := (t.draft s).events
        response :=
          { succeeded := cmpsHold s t.cmps
            responses := (applyRequests s ⟨s.kvs, []⟩ (t.branch s)).2 } }
  else none

/-- What becomes of a commit request: the response arrives, the server refuses
to run it (a limit is exceeded, say), or the client gives up without knowing
whether it was applied. -/
inductive Fate where
  | delivered
  | refused
  | unknown (applied : Bool)
deriving DecidableEq, Repr

inductive CommitError where
  | duplicateKey
  | refused
  | unknown
deriving DecidableEq, Repr

/-- One text for each kind. The server has one for every limit; nothing proved
depends on which. -/
def CommitError.message : CommitError → String
  | .duplicateKey => "etcdserver: duplicate key given in txn request"
  | .refused => "etcdserver: too many operations in txn request"
  | .unknown => "context deadline exceeded"

/-- `Commit` as a client sees it. -/
def Txn.send (t : Txn V) (fate : Fate) (s : Store V) :
    Except CommitError (TxnResponse V) × Store V :=
  match t.commit s with
  | none => (.error .duplicateKey, s)
  | some c =>
    match fate with
    | .delivered => (.ok c.response, c.store)
    | .refused => (.error .refused, s)
    | .unknown applied => (.error .unknown, if applied then c.store else s)

end etcd
