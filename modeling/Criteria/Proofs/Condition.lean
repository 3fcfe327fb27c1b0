import Criteria.Proofs.Language.Phrase
import Criteria.Proofs.Operand

/-! # Conditions

A condition is one comparison as it is written down: an attribute inside functions, a comparison
operator, and the literals behind it if the operator takes any. Both notations can write it, as a
text (`Condition.text`) and as nested criteria (`Condition.entry`). What it comes to
(`Condition.verdict`) depends on the notation only where a substring has bounds beyond 32 bits,
which each notation refuses in its own way (`Operand.Overreaches`).
-/

set_option autoImplicit false

namespace Criteria

open Number

/-! ## Literals in both notations -/

namespace Language.Phrase

namespace Scalar

/-- The text of the literal. -/
def text : Scalar → String
  | string s => Text.quoted s
  | integer n => toString n
  | float x => Value.withDecimals x.plain
  | boolean b => if b then "true" else "false"
  | null => "null"

/-- The JSON value of the literal. -/
def json : Scalar → Json
  | string s => .string s
  | integer n => .ofInt n.toInt
  | float x => .number (.double x)
  | boolean b => .boolean b
  | null => .null

theorem ofJson?_json (s : Scalar) : Literal.ofJson? s.json = some s.literal := by
  cases s with
  | integer n => simp [json, Json.ofInt, Literal.ofJson?, Literal.ofNumeric, literal,
      Word.ofInt?_toInt]
  | _ => rfl

theorem ofItems?_json (scalars : List Scalar) :
    Literal.ofItems? (scalars.map json) = some (scalars.map literal) := by
  induction scalars with
  | nil => rfl
  | cons s scalars ih => simp [Literal.ofItems?, ofJson?_json, ih]

end Scalar

namespace Parameter

/-- The text of the parameter. -/
def text : Parameter → String
  | scalar s => s.text
  | list first others => "(" ++ ", ".intercalate ((first :: others).map Scalar.text) ++ ")"

/-- The JSON value of the parameter. -/
def json : Parameter → Json
  | scalar s => s.json
  | list first others => .array ((first :: others).map Scalar.json)

theorem ofJson?_json (p : Parameter) : Literal.ofJson? p.json = some p.literal := by
  cases p with
  | scalar s => exact s.ofJson?_json
  | list first others =>
    rw [json, Literal.ofJson?, Scalar.ofItems?_json]
    rfl

end Parameter

end Language.Phrase

/-! ## Paths -/

/-- A path that resolves starts at a type of the catalog. -/
theorem AttributePath.Resolves.root_eq_ok {c : Catalog} {p : AttributePath} (h : p.Resolves c) :
    c.root p.rootType = .ok (Scope.root p.rootType) := by
  obtain ⟨owner, htarget, hattribute⟩ := h
  refine Catalog.root_iff.2 ⟨?_, rfl⟩
  cases hnavigation : p.navigation with
  | nil =>
    rw [hnavigation] at htarget
    cases htarget
    obtain ⟨entity, hentity, -⟩ := Catalog.attribute?_eq_some hattribute
    exact ⟨entity, hentity⟩
  | cons name names =>
    rw [hnavigation] at htarget
    obtain ⟨r, hr, -⟩ := Option.bind_eq_some_iff.1 htarget
    obtain ⟨entity, hentity, -⟩ := Catalog.relationship?_eq_some hr
    exact ⟨entity, hentity⟩

/-! ## Conditions -/

/-- A comparison that both notations can write. -/
structure Condition where
  operand : Operand
  comparator : Comparator
  /-- What stands behind the operator. -/
  parameter : Option Language.Phrase.Parameter
  takes : parameter.isSome = comparator.cardinality?.isSome
  finite : ∀ p ∈ parameter, p.literal.Finite

namespace Condition

/-- The text of the condition. -/
def text (k : Condition) : String :=
  match k.parameter with
  | none => s!"{k.operand.text} {k.comparator.symbol}"
  | some p => s!"{k.operand.text} {k.comparator.symbol} {p.text}"

/-- The JSON value behind the operator. -/
def value (k : Condition) : Json :=
  match k.parameter with
  | none => .object []
  | some p => p.json

/-- The criteria of the condition. -/
def entry (k : Condition) : String × Json := k.operand.entry (k.comparator.name, k.value)

/-- The attribute of the condition resolves from the root type, and the functions apply to it. -/
structure Resolves (c : Catalog) (root : String) (k : Condition) : Prop where
  rootType : k.operand.attributePath.rootType = root
  path : k.operand.attributePath.Resolves c
  offered : k.operand.Offered

/-- What the operand is compared with. -/
def argument (k : Condition) : Argument :=
  match k.parameter with
  | none => .empty
  | some p => .value p.literal

/-- The predicate of the condition, or why it is rejected: the functions are applied one after the
other, and what they yield is compared. What a substring is refused for whose bounds are no integers
of 32 bits is up to the notation. -/
def verdict (k : Condition) (refusal : Word 64 → Word 64 → Json → Rejection) (limits : Limits) :
    Except Rejection Predicate := do
  let a ← k.operand.outcome refusal (k.comparator.name, k.value)
  a.compare limits k.comparator k.argument

/-- The verdict does not depend on the notation unless a bound overreaches. -/
theorem verdict_eq {k : Condition} (h : ¬k.operand.Overreaches)
    (refusal refusal' : Word 64 → Word 64 → Json → Rejection) (limits : Limits) :
    k.verdict refusal limits = k.verdict refusal' limits := by
  rw [verdict, verdict, Operand.outcome_eq h refusal refusal']

/-- A bound that overreaches is what the condition is refused for. -/
theorem verdict_of_overreaches {k : Condition} (hoffered : k.operand.Offered)
    (h : k.operand.Overreaches) :
    ∃ start stop found, ∀ refusal limits,
      k.verdict refusal limits = .error (refusal start stop found) := by
  obtain ⟨start, stop, found, houtcome⟩ :=
    Operand.outcome_of_overreaches hoffered h (k.comparator.name, k.value)
  refine ⟨start, stop, found, fun refusal limits => ?_⟩
  rw [verdict, houtcome]
  rfl

end Condition

end Criteria
