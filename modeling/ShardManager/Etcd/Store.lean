import ShardManager.Golang.Map
import Mathlib.Data.String.Basic

open golang

namespace etcd

/-- `strings.HasPrefix`, on the characters of a key. -/
def hasPrefix (key pre : String) : Bool :=
  pre.toList.isPrefixOf key.toList

theorem hasPrefix_iff {key pre : String} : hasPrefix key pre = true ↔ pre.toList <+: key.toList := by
  simp [hasPrefix]

@[simp] theorem hasPrefix_append (pre rest : String) : hasPrefix (pre ++ rest) pre = true := by
  simp [hasPrefix_iff]

/-- A key or, with `WithPrefix`, every key starting with a prefix. -/
inductive Range where
  | key (key : String)
  | withPrefix (pre : String)
deriving DecidableEq, Repr

def Range.contains : Range → String → Bool
  | .key k, candidate => decide (candidate = k)
  | .withPrefix pre, candidate => hasPrefix candidate pre

/-- A stored value with the revision of the transaction that last put it. -/
structure KeyValue (V : Type) where
  value : V
  modRevision : Int
deriving DecidableEq, Repr

/-- The contents of an etcd cluster at a revision. Every stored key was put by
a committed transaction, so its revision is positive and not in the future. -/
structure Store (V : Type) where
  kvs : Map String (KeyValue V)
  revision : Int
  revision_pos : 0 < revision
  bounded : ∀ {key : String} {kv : KeyValue V}, kvs.lookup key = some kv →
    0 < kv.modRevision ∧ kv.modRevision ≤ revision

namespace Store

variable {V : Type}

/-- A new cluster starts at revision 1. -/
def empty : Store V where
  kvs := ∅
  revision := 1
  revision_pos := by decide
  bounded := by
    intro key kv h
    simp at h

def get (s : Store V) (key : String) : Option (KeyValue V) := s.kvs.lookup key

/-- The entries of a range. -/
def range (s : Store V) (r : Range) : List (String × KeyValue V) :=
  (s.kvs.filterKeys r.contains).toList

/-- Comparisons on a missing key see revision 0. -/
def modRevision (s : Store V) (key : String) : Int :=
  match s.get key with
  | some kv => kv.modRevision
  | none => 0

@[simp] theorem get_empty (key : String) : (empty : Store V).get key = none := by
  simp [empty, get]

theorem mem_range_iff {s : Store V} {r : Range} {key : String} {kv : KeyValue V} :
    (key, kv) ∈ s.range r ↔ r.contains key = true ∧ s.get key = some kv := by
  rw [range, Map.mem_toList_iff, Map.lookup_filterKeys]
  by_cases h : r.contains key = true <;> simp [h, get]

theorem nodup_keys_range (s : Store V) (r : Range) : ((s.range r).map Prod.fst).Nodup :=
  Map.nodup_map_fst_toList _

theorem modRevision_of_get {s : Store V} {key : String} {kv : KeyValue V}
    (h : s.get key = some kv) : s.modRevision key = kv.modRevision := by
  simp [modRevision, h]

theorem modRevision_of_get_none {s : Store V} {key : String} (h : s.get key = none) :
    s.modRevision key = 0 := by
  simp [modRevision, h]

/-- A missing key is told apart from every stored one by its revision. -/
theorem modRevision_eq_zero_iff {s : Store V} {key : String} :
    s.modRevision key = 0 ↔ s.get key = none := by
  cases h : s.get key with
  | none => simp [modRevision_of_get_none h]
  | some kv =>
    have hpos := (s.bounded h).1
    rw [modRevision_of_get h]
    simp
    omega

theorem modRevision_le (s : Store V) (key : String) : s.modRevision key ≤ s.revision := by
  have hpos := s.revision_pos
  cases h : s.get key with
  | none =>
    rw [modRevision_of_get_none h]
    omega
  | some kv =>
    rw [modRevision_of_get h]
    exact (s.bounded h).2

/-- `later` may be reached from `earlier` by committing transactions: whatever
it holds from before that point is what `earlier` held. -/
structure Follows (earlier later : Store V) : Prop where
  revision_le : earlier.revision ≤ later.revision
  get_of_le : ∀ {key : String} {kv : KeyValue V}, later.get key = some kv →
    kv.modRevision ≤ earlier.revision → earlier.get key = some kv

theorem Follows.refl (s : Store V) : Follows s s := ⟨le_refl _, fun h _ => h⟩

theorem Follows.trans {a b c : Store V} (hab : Follows a b) (hbc : Follows b c) : Follows a c where
  revision_le := hab.revision_le.trans hbc.revision_le
  get_of_le := by
    intro key kv hget hle
    exact hab.get_of_le (hbc.get_of_le hget (hle.trans hab.revision_le)) hle

/-- An unchanged mod revision means an unchanged key. This is what comparing
`ModRevision` buys a transaction planned from an earlier read. -/
theorem Follows.get_eq_of_modRevision_eq {earlier later : Store V} (h : Follows earlier later)
    {key : String} (hrev : later.modRevision key = earlier.modRevision key) :
    later.get key = earlier.get key := by
  cases hlater : later.get key with
  | none =>
    rw [modRevision_of_get_none hlater] at hrev
    exact (modRevision_eq_zero_iff.mp hrev.symm).symm
  | some kv =>
    rw [modRevision_of_get hlater] at hrev
    have hle : kv.modRevision ≤ earlier.revision := by
      rw [hrev]
      exact earlier.modRevision_le key
    exact (h.get_of_le hlater hle).symm

/-- A revision that a key had after the earlier store it never has again. -/
theorem Follows.modRevision_eq {earlier later : Store V} (h : Follows earlier later) {key : String} {rev : Int}
    (hpos : 0 < rev) (hle : rev ≤ earlier.revision) (hrev : later.modRevision key = rev) :
    earlier.modRevision key = rev := by
  cases hlater : later.get key with
  | none =>
    rw [modRevision_of_get_none hlater] at hrev
    omega
  | some kv =>
    rw [modRevision_of_get hlater] at hrev
    rw [modRevision_of_get (h.get_of_le hlater (hrev.trans_le hle)), hrev]

end Store

end etcd
