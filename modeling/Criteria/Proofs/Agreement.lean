import Criteria.Proofs.Language.Conditions
import Criteria.Proofs.RoundTrip
import Criteria.Proofs.Structural.Conditions

/-! # Agreement of the notations

A condition means the same whether it is written as a text or as criteria, unless a substring has
bounds beyond 32 bits (`Condition.compile_agrees_convert_iff`). Compiling and converting both come
to the verdict on the condition, and differ in where they show an error only. Bounds beyond 32 bits
are a bad range in texts, and criteria of a wrong shape in JSON
(`Condition.refused_of_overreaches`).
-/

set_option autoImplicit false

namespace Criteria

open Criteria.Language Criteria.Structural

/-- Two results say the same: one predicate, or errors of one kind and one wording. -/
inductive Agree : Except CompileError Predicate → Except CompileError Predicate → Prop
  | ok (p : Predicate) : Agree (.ok p) (.ok p)
  | error {e e' : CompileError} (kind : e.kind = e'.kind) (message : e.message = e'.message) :
      Agree (.error e) (.error e')

/-- A verdict is the same wherever it is shown. -/
theorem agree_of_verdict (verdict : Except Rejection Predicate) (source : List Char)
    (extent : Extent) (context : ContextPath) :
    Agree (verdict.mapError (·.inSource source extent)) (within context verdict) := by
  cases verdict with
  | ok p => exact .ok p
  | error r => exact .error rfl rfl

namespace Condition

variable {d : SchemaDocument} {c : Catalog} {limits : Limits} {root source : String} {k : Condition}

/-- The same name is a word of texts and no key of its own in criteria. -/
theorem named_of_and (h : k.operand.Named fun name => IsWord name ∧ IsField name) :
    k.operand.Named IsWord ∧ k.operand.Named IsField := by
  obtain ⟨hhops, hlast⟩ := h
  exact ⟨⟨fun hop hhop => (hhops hop hhop).1, hlast.1⟩,
    ⟨fun hop hhop => (hhops hop hhop).2, hlast.2⟩⟩

/-- Compiling a text of the condition and converting its criteria come to the verdict on it. -/
theorem verdicts (hloaded : d.toSchema = .ok c.schema) (hresolves : k.Resolves c root)
    (hnamed : k.operand.Named fun name => IsWord name ∧ IsField name)
    (hdepth : k.operand.levels + 1 ≤ limits.maxDepth) (hsource : SameTokens source k.text) :
    (∃ extent, compile c limits root source =
      (k.verdict Operand.rangeRefusal limits).mapError (·.inSource source.toList extent)) ∧
    convert c limits root [k.entry] =
      within (contextOf k.operand.attributePath) (k.verdict Operand.boundsRefusal limits) := by
  obtain ⟨hwords, hfields⟩ := named_of_and hnamed
  have hbrackets : k.operand.nesting ≤ limits.maxDepth := by
    unfold Operand.levels at hdepth
    omega
  exact ⟨k.compile_verdict hresolves hwords hbrackets hsource,
    k.convert_verdict hloaded hresolves hfields hdepth⟩

/-- A condition with bounds that overreach is refused in both notations: texts have the range in the
error, criteria the object that holds the bounds. -/
theorem refused_of_overreaches (hloaded : d.toSchema = .ok c.schema)
    (hresolves : k.Resolves c root)
    (hnamed : k.operand.Named fun name => IsWord name ∧ IsField name)
    (hdepth : k.operand.levels + 1 ≤ limits.maxDepth) (hsource : SameTokens source k.text)
    (h : k.operand.Overreaches) :
    ∃ start stop found extent,
      compile c limits root source =
        .error ((Rejection.substringRange start stop).inSource source.toList extent) ∧
      convert c limits root [k.entry] =
        .error ((Rejection.substringBounds found).within
          (contextOf k.operand.attributePath)) := by
  obtain ⟨⟨extent, hcompile⟩, hconvert⟩ := verdicts hloaded hresolves hnamed hdepth hsource
  obtain ⟨start, stop, found, hverdict⟩ := verdict_of_overreaches hresolves.offered h
  rw [hverdict] at hcompile hconvert
  exact ⟨start.toInt, stop.toInt, found, extent, hcompile, hconvert⟩

/-- The notations agree on a condition exactly if none of its bounds overreaches. -/
theorem agree_iff (hloaded : d.toSchema = .ok c.schema) (hresolves : k.Resolves c root)
    (hnamed : k.operand.Named fun name => IsWord name ∧ IsField name)
    (hdepth : k.operand.levels + 1 ≤ limits.maxDepth) (hsource : SameTokens source k.text) :
    Agree (compile c limits root source) (convert c limits root [k.entry]) ↔
      ¬k.operand.Overreaches := by
  constructor
  · intro hagree hover
    obtain ⟨start, stop, found, extent, hcompile, hconvert⟩ :=
      refused_of_overreaches hloaded hresolves hnamed hdepth hsource hover
    rw [hcompile, hconvert] at hagree
    -- One error is about an operator, the other about the shape of criteria.
    cases hagree with
    | error hkind _ => cases hkind
  · intro hfits
    obtain ⟨⟨extent, hcompile⟩, hconvert⟩ := verdicts hloaded hresolves hnamed hdepth hsource
    rw [hcompile, hconvert, verdict_eq hfits Operand.rangeRefusal Operand.boundsRefusal]
    exact agree_of_verdict _ _ _ _

/-- A condition has the same outcome in both notations exactly if, from the inside out, no bound of
a substring is beyond 32 bits before any bounds are out of order. Its attribute has to resolve and
its functions to be offered, its names to be words that are no keys of their own in criteria, and
criteria may be nested as deep as it needs. So it is for every other text of the same tokens. -/
theorem compile_agrees_convert_iff (k : Condition) (hloaded : d.toSchema = .ok c.schema)
    (hresolves : k.Resolves c root)
    (hnamed : k.operand.Named fun name => IsWord name ∧ IsField name)
    (hdepth : k.operand.levels + 1 ≤ limits.maxDepth) :
    (Agree (compile c limits root k.text) (convert c limits root [k.entry]) ↔
      ¬k.operand.Overreaches) ∧
    ∀ source, SameTokens source k.text →
      (Agree (compile c limits root source) (convert c limits root [k.entry]) ↔
        ¬k.operand.Overreaches) := by
  have hwords := (named_of_and hnamed).1
  have hagree : ∀ source, SameTokens source k.text →
      (Agree (compile c limits root source) (convert c limits root [k.entry]) ↔
        ¬k.operand.Overreaches) :=
    fun _ hsource => agree_iff hloaded hresolves hnamed hdepth hsource
  exact ⟨hagree k.text (k.sameTokens_text hresolves hwords), hagree⟩

end Condition

/-- The name of the manager starts with an `a` or a `b`, large or small. -/
def initialOfManager : Condition where
  operand := AttributeRef.operand <|
    .derived (.substring ⟨0, by decide, by decide⟩ ⟨1, by decide, by decide⟩) <|
      .derived .toLowerCase (.simple ⟨"Person", ["manager"], "name", .string, true⟩)
  comparator := .isIn
  parameter := some (.list (.string "a") [.string "b"])
  takes := rfl
  finite := by
    rintro p ⟨⟩
    simp [Phrase.Parameter.literal, Phrase.Scalar.literal, Literal.Finite]

/-- The criteria of this condition. -/
def initialOfManagerCriteria : List (String × Json) :=
  [("manager", .object [("name", .object [("toLowerCase", .object [("substring", .object [
    ("start", .ofInt 0), ("end", .ofInt 1), ("in", .array [.string "a", .string "b"])])])])])]

/-- The age is greater than nothing. -/
def agedBeyondNull : Condition where
  operand := .path ⟨"Person", [], "age", .integer, false⟩
  comparator := .greaterThan
  parameter := some (.scalar .null)
  takes := rfl
  finite := by
    rintro p ⟨⟩
    trivial

theorem isField_of_ne {key : String} (hand : key ≠ "AND") (hor : key ≠ "OR")
    (htests : ∀ test : Existence, key ≠ test.method) : IsField key := by
  refine ⟨?_, htests⟩
  intro combinator
  cases combinator with
  | conjunction => exact hand
  | disjunction => exact hor

/-- The members of persons have names that both notations can write. -/
theorem staff_names : ∀ name ∈ ["manager", "name", "age"], IsWord name ∧ IsField name := by
  intro name hname
  have hcases : name = "manager" ∨ name = "name" ∨ name = "age" := by simpa using hname
  rcases hcases with rfl | rfl | rfl
  all_goals
    refine ⟨isWord_of_toList rfl (by decide +kernel), isField_of_ne (by decide) (by decide) ?_⟩
    intro test
    cases test <;> decide

theorem staff_conditions_agree :
    (Agree
      (compile staff {} "Person"
        "substring(toLowerCase(this.manager.name), 0, 1) in (\"a\", \"b\")")
      (convert staff {} "Person" initialOfManagerCriteria) ∧
      ∃ p, convert staff {} "Person" initialOfManagerCriteria = .ok p) ∧
    Agree (compile staff {} "Person" "this.age > null")
      (convert staff {} "Person" [("age", .object [("greaterThan", .null)])]) ∧
    ∃ e, convert staff {} "Person" [("age", .object [("greaterThan", .null)])] = .error e := by
  have hloaded : staffDocument.toSchema = .ok staff.schema := rfl
  have hinitial : initialOfManager.Resolves staff "Person" :=
    ⟨rfl, ⟨"Person", rfl, rfl⟩, ⟨trivial, by decide⟩, by decide⟩
  have hage : agedBeyondNull.Resolves staff "Person" :=
    ⟨rfl, ⟨"Person", rfl, rfl⟩, trivial⟩
  have hfirst := initialOfManager.compile_agrees_convert_iff hloaded hinitial
    ⟨fun hop hhop => staff_names hop (List.mem_singleton.1 hhop ▸ List.mem_cons_self),
      staff_names _ (by decide)⟩ (by decide : _ ≤ ({} : Limits).maxDepth)
  have hsecond := agedBeyondNull.compile_agrees_convert_iff hloaded hage
    ⟨nofun, staff_names _ (by decide)⟩ (by decide : _ ≤ ({} : Limits).maxDepth)
  have htext : initialOfManager.text =
      "substring(toLowerCase(this.manager.name), 0, 1) in (\"a\", \"b\")" := by
    rfl
  have hother : agedBeyondNull.text = "this.age > null" := by
    rfl
  rw [htext] at hfirst
  rw [hother] at hsecond
  have hfits : initialOfManager.operand.Fits := ⟨⟨trivial, trivial⟩, by decide, by decide⟩
  exact ⟨⟨hfirst.1.2 (Operand.not_overreaches_of_fits hfits), _, rfl⟩, hsecond.1.2 not_false, _,
    rfl⟩

/-- The members of a substring that goes on far behind the end of any name. -/
def farCutMembers : List (String × Json) :=
  [("start", .ofInt 0), ("end", .ofInt 3000000000), ("eq", .string "a")]

/-- A bound of more than 32 bits is a bad range in texts and no integer in criteria. -/
theorem farCut_disagrees :
    ∃ e e', compile staff {} "Person" "substring(this.name, 0, 3000000000) == \"a\"" = .error e ∧
      convert staff {} "Person" [("name", .object [("substring", .object farCutMembers)])] =
        .error e' ∧
      e.message = "Invalid substring range [0, 3000000000]" ∧
      e'.message = "substring requires integer 'start' and 'end' but found: " ++
        "\x7b\"start\":0,\"end\":3000000000,\"eq\":\"a\"\x7d" ∧
      ¬Agree (.error e) (.error e') := by
  refine ⟨⟨.rejected (.substringRange 0 3000000000),
      .source ⟨1, 1, "substring(this.name, 0, 3000000000) == \"a\"", (0, 42)⟩⟩,
    ⟨.rejected (.substringBounds (.object farCutMembers)), .path ⟨["name"]⟩⟩,
    by cbv, rfl, rfl, rfl, ?_⟩
  intro hagree
  cases hagree with
  | error hkind _ => cases hkind

end Criteria
