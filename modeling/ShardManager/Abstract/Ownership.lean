import Mathlib.Data.Set.Basic

namespace ownership

variable {E S : Type*}

/-- Who holds what. -/
abbrev Table (E S : Type*) := E → S → Prop

/-- No two holders hold the same thing. -/
def Exclusive (own : Table E S) : Prop :=
  ∀ e e' x, own e x → own e' x → e = e'

/-- Replaces what a set of holders hold and leaves the others alone. -/
def overwrite (compared : Set E) (new own : Table E S) : Table E S :=
  fun e x => (e ∈ compared ∧ new e x) ∨ (e ∉ compared ∧ own e x)

variable {own new : Table E S} {compared : Set E}

/-- An overwrite keeps exclusivity if what it hands out is handed out once and
is taken from the holders it overwrites, or else held by none of the others. -/
theorem Exclusive.overwrite (hown : Exclusive own)
    (hnew : ∀ e e' x, e ∈ compared → e' ∈ compared → new e x → new e' x → e = e')
    (hsource : ∀ e x, e ∈ compared → new e x →
      (∃ e₀ ∈ compared, own e₀ x) ∨ ∀ e', own e' x → e' ∈ compared) :
    Exclusive (overwrite compared new own) := by
  -- The mixed case: a holder outside still has what was handed out.
  have hmixed : ∀ {e e' x}, e ∈ compared → new e x → e' ∉ compared → own e' x → False := by
    intro e e' x he hnewe he' howne'
    rcases hsource e x he hnewe with ⟨e₀, he₀, hown₀⟩ | hnone
    · exact he' (hown e₀ e' x hown₀ howne' ▸ he₀)
    · exact he' (hnone e' howne')
  intro e e' x h h'
  rcases h with ⟨he, hx⟩ | ⟨he, hx⟩ <;> rcases h' with ⟨he', hx'⟩ | ⟨he', hx'⟩
  · exact hnew e e' x he he' hx hx'
  · exact (hmixed he hx he' hx').elim
  · exact (hmixed he' hx' he hx).elim
  · exact hown e e' x hx hx'

/-- Taking things away keeps exclusivity. -/
theorem Exclusive.mono {own' : Table E S} (hown : Exclusive own) (h : ∀ e x, own' e x → own e x) :
    Exclusive own' :=
  fun e e' x he he' => hown e e' x (h e x he) (h e' x he')

/-- Handing out once what nobody holds keeps exclusivity. -/
theorem Exclusive.add (hown : Exclusive own) (hnew : Exclusive new) (hfree : ∀ e x, new e x → ∀ e', ¬own e' x) :
    Exclusive fun e x => own e x ∨ new e x := by
  rintro e e' x (h | h) (h' | h')
  · exact hown e e' x h h'
  · exact absurd h (hfree e' x h' e)
  · exact absurd h' (hfree e x h e')
  · exact hnew e e' x h h'

end ownership
