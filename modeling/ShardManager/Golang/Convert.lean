import ShardManager.Golang.Basic
import ShardManager.Golang.Map

namespace golang

variable {α β κ : Type}

/-- A value of an integer type with declared constants. -/
inductive Enum (α : Type) where
  | declared (value : α)
  | other (code : Int)
deriving DecidableEq, Repr

instance [Inhabited α] : Inhabited (Enum α) := ⟨.declared default⟩

def Enum.Declared (e : Enum α) : Prop := ∃ value, e = .declared value

/-- A slice, which may be nil. -/
abbrev Slice (α : Type) := Option (List α)

/-- What a nil slice becomes when the elements are appended to it. -/
def Slice.appended : List α → Slice α
  | [] => none
  | l => some l

theorem Slice.getD_appended (l : List α) : (Slice.appended l).getD [] = l := by
  cases l <;> rfl

theorem Slice.getD_map (f : α → β) (s : Slice α) : (s.map (List.map f)).getD [] = (s.getD []).map f := by
  cases s <;> rfl

/-- The same slice, but empty where it is nil. -/
def Slice.nilAsEmpty (s : Slice α) : Slice α := some (s.getD [])

/-- A loop over a map that assigns to every key in another map. -/
def Map.mapValues (f : α → β) (m : Map κ α) : Map κ β where
  entries := m.entries.map fun e => ⟨e.1, f e.2⟩
  nodupKeys := List.NodupKeys.map₂ (fun _ => f) _ m.nodupKeys

/-- No entry of the slice is nil, and all of them meet a condition. -/
def Slice.All (P : α → Prop) (s : Slice (Option α)) : Prop := ∀ l ∈ s, ∀ entry ∈ l, ∃ a, entry = some a ∧ P a

theorem Slice.All.getD {P : α → Prop} {s : Slice (Option α)} (h : Slice.All P s) :
    ∀ entry ∈ s.getD [], ∃ a, entry = some a ∧ P a := by
  cases s with
  | none => exact List.forall_mem_nil _
  | some l => exact h l rfl

/-- No entry of the map, which may be nil, is nil, and all of them meet a
condition. -/
def Map.All (P : α → Prop) (m : Option (Map κ (Option α))) : Prop :=
  ∀ entries ∈ m, ∀ entry ∈ entries.toList, ∃ a, entry.2 = some a ∧ P a

/-- Encoding what a pointer points to, and decoding it, gives it back. -/
def Recovers (encode : Option α → Option β) (decode : Option β → Option α) (P : α → Prop) : Prop :=
  ∀ a, P a → decode (encode (some a)) = some a

section Recovers

variable {encode : Option α → Option β} {decode : Option β → Option α} {P : α → Prop}

theorem Recovers.pointer (h : Recovers encode decode P) (hnil : decode (encode none) = none) {t : Option α}
    (hall : ∀ a ∈ t, P a) : decode (encode t) = t := by
  cases t with
  | none => exact hnil
  | some a => exact h a (hall a rfl)

theorem Recovers.entries (h : Recovers encode decode P) {l : List (Option α)}
    (hall : ∀ entry ∈ l, ∃ a, entry = some a ∧ P a) : (l.map encode).map decode = l := by
  rw [List.map_map]
  refine (List.map_congr_left fun entry hentry => ?_).trans (List.map_id l)
  obtain ⟨a, rfl, ha⟩ := hall entry hentry
  exact h a ha

theorem Recovers.slice (h : Recovers encode decode P) {s : Slice (Option α)} (hall : Slice.All P s) :
    (s.map (List.map encode)).map (List.map decode) = s := by
  cases s with
  | none => rfl
  | some l => exact congrArg some (h.entries (hall l rfl))

theorem Recovers.map (h : Recovers encode decode P) {m : Option (Map κ (Option α))} (hall : Map.All P m) :
    (m.map (Map.mapValues encode)).map (Map.mapValues decode) = m := by
  cases m with
  | none => rfl
  | some m =>
    refine congrArg some (AList.ext ?_)
    change (m.entries.map fun e => (⟨e.1, encode e.2⟩ : Sigma fun _ : κ => Option β)).map
      (fun e => ⟨e.1, decode e.2⟩) = m.entries
    rw [List.map_map]
    refine (List.map_congr_left fun entry hentry => ?_).trans (List.map_id _)
    obtain ⟨a, hsome, ha⟩ := hall m rfl (entry.1, entry.2) (List.mem_map_of_mem hentry)
    obtain ⟨k, pointer⟩ := entry
    obtain rfl : pointer = some a := hsome
    exact congrArg (Sigma.mk k) (h a ha)

end Recovers

inductive Location where
  | utc
  | zone (name : String)
deriving DecidableEq, Repr

/-- A `time.Time`: an instant with the location it is shown in. -/
structure ZonedTime where
  instant : Time
  location : Location
deriving DecidableEq, Repr

namespace ZonedTime

def zero : ZonedTime := ⟨0, .utc⟩

instance : Inhabited ZonedTime := ⟨zero⟩

def isZero (t : ZonedTime) : Bool := Time.isZero t.instant

def unixEpoch : Time := 62135596800 * 10 ^ 9

/-- `UnixNano` wraps around outside its range. -/
def unixNano (t : ZonedTime) : Int := int64 (t.instant - unixEpoch)

/-- `time.Unix`. -/
def unix (seconds nanos : Int) : ZonedTime := ⟨unixEpoch + seconds * 10 ^ 9 + nanos, .zone "Local"⟩

def utc (t : ZonedTime) : ZonedTime := { t with location := .utc }

/-- The zero time, or one in UTC and in the range of `UnixNano`. -/
def Representable (t : ZonedTime) : Prop :=
  t = zero ∨ -2 ^ 63 ≤ t.instant - unixEpoch ∧ t.instant - unixEpoch < 2 ^ 63 ∧ t.location = .utc

instance (t : ZonedTime) : Decidable t.Representable :=
  inferInstanceAs (Decidable (t = zero ∨
    -2 ^ 63 ≤ t.instant - unixEpoch ∧ t.instant - unixEpoch < 2 ^ 63 ∧ t.location = .utc))

end ZonedTime

end golang
