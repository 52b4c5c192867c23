import ShardManager.Etcd.History

open golang

namespace etcd

variable {V : Type}

/-- What a watch reports about going from one store to the next: the keys put
since, and those that are gone. -/
def changes (s s' : Store V) : List (Event V) :=
  ((s'.kvs.toList.filter fun (_, kv) => decide (s.revision < kv.modRevision)).map
    fun (key, kv) => ⟨key, some kv, s.get key⟩) ++
  ((s.kvs.toList.filter fun (key, _) => (s'.get key).isNone).map fun (key, kv) => ⟨key, none, some kv⟩)

variable {s s' : Store V}

theorem mem_changes_iff {event : Event V} : event ∈ changes s s' ↔
    (∃ kv, s'.get event.key = some kv ∧ s.revision < kv.modRevision ∧ event.kv = some kv ∧
      event.prevKv = s.get event.key) ∨
    ∃ kv, s.get event.key = some kv ∧ s'.get event.key = none ∧ event.kv = none ∧ event.prevKv = some kv := by
  obtain ⟨key, kv, prevKv⟩ := event
  simp only [changes, List.mem_append, List.mem_map, List.mem_filter, Prod.exists, Map.mem_toList_iff,
    decide_eq_true_eq, Option.isNone_iff_eq_none, Event.mk.injEq]
  constructor
  · rintro (⟨k, kv', ⟨hget, hlt⟩, rfl, rfl, rfl⟩ | ⟨k, kv', ⟨hget, hnone⟩, rfl, rfl, rfl⟩)
    · exact .inl ⟨kv', hget, hlt, rfl, rfl⟩
    · exact .inr ⟨kv', hget, hnone, rfl, rfl⟩
  · rintro (⟨kv', hget, hlt, rfl, rfl⟩ | ⟨kv', hget, hnone, rfl, rfl⟩)
    · exact .inl ⟨key, kv', ⟨hget, hlt⟩, rfl, rfl, rfl⟩
    · exact .inr ⟨key, kv', ⟨hget, hnone⟩, rfl, rfl, rfl⟩

/-- Every change of a key is reported, with its value before and after. -/
theorem mem_changes_of_ne (h : s.Follows s') {key : String} (hne : s'.get key ≠ s.get key) :
    ⟨key, s'.get key, s.get key⟩ ∈ changes s s' := by
  refine mem_changes_iff.mpr ?_
  dsimp only
  rcases Option.eq_none_or_eq_some (s'.get key) with hget | ⟨kv, hget⟩
  · rcases Option.eq_none_or_eq_some (s.get key) with hprev | ⟨kv, hprev⟩
    · exact absurd (hget.trans hprev.symm) hne
    · exact .inr ⟨kv, hprev, hget, hget, hprev⟩
  · refine .inl ⟨kv, hget, ?_, hget, rfl⟩
    by_contra hle
    exact hne (hget.trans (h.get_of_le hget (not_lt.mp hle)).symm)

theorem changes_self (s : Store V) : changes s s = [] := by
  rw [List.eq_nil_iff_forall_not_mem]
  intro event hevent
  rcases mem_changes_iff.mp hevent with ⟨kv, hget, hlt, -⟩ | ⟨kv, hget, hnone, -⟩
  · exact absurd (s.bounded hget).2 (not_le.mpr hlt)
  · rw [hget] at hnone
    cases hnone

end etcd
