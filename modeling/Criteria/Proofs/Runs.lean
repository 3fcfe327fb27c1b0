import Criteria.Language.Compile
import Criteria.Structural.OrderBy

/-! # Two runs of one compiler

Two runs on the same criteria, under different limits or over different catalogs. A `Difference`
says which errors the second run may have in place of those of the first, and with which errors the
first run may stop where the second goes on. The results of the runs are then related by `Follows`,
which goes through a computation step by step (`Follows.bind`). A front end follows from where it
looks names up and checks limits.
-/

set_option autoImplicit false

namespace Criteria

/-- How the errors of two runs may differ. -/
structure Difference (ε : Type) where
  /-- The errors with which the first run may stop, whatever the second one does. -/
  stops : ε → Prop
  /-- The errors that the second run may have in place of one of the first. -/
  alike : ε → ε → Prop
  refl : ∀ e, alike e e

/-- The results of two runs: equal values, errors that are alike, or a first run that stopped. -/
inductive Follows {ε α : Type} (d : Difference ε) : Except ε α → Except ε α → Prop
  | ok (a : α) : Follows d (.ok a) (.ok a)
  | error {e e' : ε} (h : d.alike e e') : Follows d (.error e) (.error e')
  | stopped {e : ε} {r : Except ε α} (h : d.stops e) : Follows d (.error e) r

namespace Follows

variable {ε α β : Type} {d : Difference ε}

theorem refl (r : Except ε α) : Follows d r r := by
  cases r with
  | ok a => exact .ok a
  | error e => exact .error (d.refl e)

theorem bind {r r' : Except ε α} {f g : α → Except ε β} (h : Follows d r r')
    (next : ∀ a, Follows d (f a) (g a)) : Follows d (r >>= f) (r' >>= g) := by
  cases h with
  | ok a => exact next a
  | error h => exact .error h
  | stopped h => exact .stopped h

/-- A step that both runs share. -/
theorem bind_same (r : Except ε α) {f g : α → Except ε β} (next : ∀ a, Follows d (f a) (g a)) :
    Follows d (r >>= f) (r >>= g) := bind (refl r) next

/-- Errors that are put in another form are related if the form keeps what relates them. -/
theorem mapError {δ : Type} {d' : Difference δ} {f : ε → δ}
    (stops : ∀ e, d.stops e → d'.stops (f e))
    (alike : ∀ e e', d.alike e e' → d'.alike (f e) (f e')) {r r' : Except ε α}
    (h : Follows d r r') : Follows d' (r.mapError f) (r'.mapError f) := by
  cases h with
  | ok a => exact .ok a
  | error h => exact .error (alike _ _ h)
  | stopped h => exact .stopped (stops _ h)

end Follows

/-! ## Errors with a place -/

namespace Difference

variable (d : Difference Cause)

/-- The difference as one of rejections. -/
def rejections : Difference Rejection where
  stops r := d.stops (.rejected r)
  alike r r' := d.alike (.rejected r) (.rejected r')
  refl r := d.refl (.rejected r)

/-- The difference as one of errors at one place. -/
def errors : Difference CompileError where
  stops e := d.stops e.cause
  alike e e' := e.location = e'.location ∧ d.alike e.cause e'.cause
  refl e := ⟨rfl, d.refl e.cause⟩

/-- The difference as one of rejections of one range of bytes. -/
def faults : Difference Language.Fault where
  stops f := d.stops (.rejected f.rejection)
  alike f f' := f.extent = f'.extent ∧ d.alike (.rejected f.rejection) (.rejected f'.rejection)
  refl f := ⟨rfl, d.refl (.rejected f.rejection)⟩

/-- The difference as one of texts that do not parse: the second run has no other errors. -/
def parseErrors : Difference Language.ParseError where
  stops e := d.stops (.unparsable e)
  alike e e' := e = e'
  refl _ := rfl

end Difference

variable {α : Type} {d : Difference Cause}

theorem Follows.within {r r' : Except Rejection α} (h : Follows d.rejections r r')
    (context : ContextPath) :
    Follows d.errors (Structural.within context r) (Structural.within context r') := by
  have hwithin : ∀ r : Except Rejection α,
      Structural.within context r = r.mapError (·.within context) := by
    intro r
    cases r <;> rfl
  rw [hwithin, hwithin]
  refine Follows.mapError ?_ ?_ h
  · intro _ hstops
    exact hstops
  · intro _ _ halike
    exact ⟨rfl, halike⟩

theorem Follows.atExtent {r r' : Except Rejection α} (h : Follows d.rejections r r')
    (extent : Language.Extent) :
    Follows d.faults (Language.atExtent extent r) (Language.atExtent extent r') := by
  have hatExtent : ∀ r : Except Rejection α,
      Language.atExtent extent r = r.mapError fun rejection => ⟨rejection, extent⟩ := by
    intro r
    cases r <;> rfl
  rw [hatExtent, hatExtent]
  refine Follows.mapError ?_ ?_ h
  · intro _ hstops
    exact hstops
  · intro _ _ halike
    exact ⟨rfl, halike⟩

/-! ## What the front ends ask -/

/-- Two catalogs whose answers to lookups differ as the difference allows. -/
structure LookupsFollow (d : Difference Cause) (c c' : Catalog) : Prop where
  root : ∀ typeName, Follows d.rejections (c.root typeName) (c'.root typeName)
  navigate : ∀ s name, Follows d.rejections (c.navigate s name) (c'.navigate s name)
  attributeRef : ∀ s name, Follows d.rejections (c.attributeRef s name) (c'.attributeRef s name)
  field : ∀ s name, Follows d.rejections (c.field s name) (c'.field s name)

/-- Two limits under which comparisons differ as the difference allows. -/
def ComparesFollow (d : Difference Cause) (limits limits' : Limits) : Prop :=
  ∀ (a : AttributeRef) (comparator : Comparator) (argument : Argument),
    Follows d.rejections (a.compare limits comparator argument)
      (a.compare limits' comparator argument)

theorem LookupsFollow.refl (c : Catalog) : LookupsFollow d c c where
  root _ := .refl _
  navigate _ _ := .refl _
  attributeRef _ _ := .refl _
  field _ _ := .refl _

theorem ComparesFollow.refl (limits : Limits) : ComparesFollow d limits limits :=
  fun _ _ _ => .refl _

end Criteria
