import ShardManager.Etcd.Store
import ShardManager.Golang.Quote
import ShardManager.Process.Planning

open golang etcd

namespace namespaces

open config (Namespace)

def validate (ns : Namespace) : Except String Unit :=
  if ns.name = "" then .error "name must not be empty"
  -- Names are etcd key prefixes, and a leading underscore is reserved for keys beside them.
  else if hasPrefix ns.name "_" then .error "name must not start with an underscore"
  else match ns.type with
    | .fixed =>
      if ns.shardNum ≤ 0 then .error s!"fixed namespace must have a positive shardNum, got {ns.shardNum}"
      else .ok ()
    | .ephemeral => .ok ()
    | .other type => .error s!"unknown type {quote type}, must be \"fixed\" or \"ephemeral\""

/-- The namespaces served, by name. -/
structure Registry where
  byName : Map String Namespace

/-- One iteration of the loop over the configured namespaces. -/
def register (r : Registry) (ns : Namespace) : Except String Registry :=
  match validate ns with
  | .error reason => .error s!"namespace {quote ns.name}: {reason}"
  | .ok () =>
    if ns.name ∈ r.byName then .error s!"namespace {quote ns.name}: configured more than once"
    else .ok ⟨r.byName.insert ns.name ns⟩

def newRegistry (cfg : List Namespace) : Except String Registry :=
  cfg.foldlM register ⟨∅⟩

def Registry.get (r : Registry) (name : String) : Except String Namespace :=
  match r.byName.lookup name with
  | some ns => .ok ns
  | none => .error s!"namespace {quote name} not found"

theorem validate_name {ns : Namespace} (h : validate ns = .ok ()) : ns.name ≠ "" ∧ hasPrefix ns.name "_" = false := by
  unfold validate at h
  split at h
  · cases h
  · rename_i hname
    split at h
    · cases h
    · rename_i hunderscore
      exact ⟨hname, by simpa using hunderscore⟩

/-- Every registered namespace has passed validation under its own name. -/
theorem newRegistry_valid {cfg : List Namespace} {r : Registry} (h : newRegistry cfg = .ok r) {name : String}
    {ns : Namespace} (hlookup : r.byName.lookup name = some ns) : ns.name = name ∧ validate ns = .ok () := by
  refine foldlM_ok_induction
    (fun _ acc => ∀ name ns, acc.byName.lookup name = some ns → ns.name = name ∧ validate ns = .ok ()) ?_ ?_ h
    name ns hlookup
  · intro name ns hnone
    simp at hnone
  · intro seen entry rest acc acc' hcfg ih hstep name ns hlookup
    unfold register at hstep
    split at hstep
    · cases hstep
    · rename_i hvalid
      split at hstep
      · cases hstep
      · cases hstep
        dsimp only at hlookup
        rw [Map.lookup_insert_eq] at hlookup
        split at hlookup
        · rename_i heq
          cases hlookup
          exact ⟨heq.symm, hvalid⟩
        · exact ih name ns hlookup

/-- No registered name starts with an underscore. -/
theorem not_underscore_of_mem {cfg : List Namespace} {r : Registry} (h : newRegistry cfg = .ok r) {name : String}
    (hmem : name ∈ r.byName) : hasPrefix name "_" = false := by
  obtain ⟨ns, hlookup⟩ := Map.mem_iff_exists_lookup.mp hmem
  obtain ⟨hname, hvalid⟩ := newRegistry_valid h hlookup
  rw [← hname]
  exact (validate_name hvalid).2

end namespaces
