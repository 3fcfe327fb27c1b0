import Criteria.CommandLine.Run
import Criteria.Proofs.Language.Compiling
import Criteria.Proofs.Structural.Typing

/-! # Soundness of typing

What either front end accepts is well typed at every depth: attributes and chains of relationships
resolve from the type they are about, every function and operator stands in the table of its type,
and parameters fit their operator, their type and the limits.
-/

set_option autoImplicit false

namespace Criteria

open Number

/-- A predicate over a type that one of the front ends accepts. The numbers of structural criteria
are such as a document holds. -/
inductive Accepted (c : Catalog) (limits : Limits) (rootType : String) : Predicate → Prop
  | compiled {source : String} {p : Predicate}
      (h : Language.compile c limits rootType source = .ok p) : Accepted c limits rootType p
  | converted {criteria : List (String × Json)} {p : Predicate}
      (document : ∀ m ∈ criteria, m.2.Bounded)
      (h : Structural.convert c limits rootType criteria = .ok p) : Accepted c limits rootType p

/-- The criteria that the program reads are such a document. -/
theorem CommandLine.loadCriteria_bounded {s : Surroundings} {file : Option String}
    {criteria : List (String × Json)} (h : loadCriteria s file = .ok criteria) :
    ∀ m ∈ criteria, m.2.Bounded := by
  obtain ⟨text, hread⟩ : ∃ text, Json.read? text = some (.object criteria) := by
    unfold loadCriteria at h
    -- Both ways to a text go on to the same reading of it.
    split at h <;> split at h <;> obtain ⟨text, -, h⟩ := bind_eq_ok.1 h
    all_goals
      beta_reduce at h
      split at h
      · cases h
      · rename_i members hread
        cases h
        exact ⟨text, hread⟩
      · cases h
  exact Json.read?_members_bounded hread

theorem Catalog.named_any (c : Catalog) : c.Named fun _ => True where
  attr _ := trivial
  relationship _ := trivial

/-- Everything that is accepted is well typed. -/
theorem Accepted.predicate_wellTyped {c : Catalog} {limits : Limits} {rootType : String}
    {p : Predicate} (h : Accepted c limits rootType p) : p.WellTyped c limits rootType := by
  cases h with
  | compiled h => exact Language.compile_kept (.wellTyped c limits _) h
  | converted document h =>
    exact Structural.convert_kept (.wellTyped c limits _) c.named_any document h

/-! ## Persons and their managers -/

/-- A catalog of persons, who may have a name and a manager. -/
def staff : Catalog :=
  { schema := ⟨[⟨"Person", [⟨"name", .string, true⟩, ⟨"age", .integer, false⟩],
      [⟨"manager", "Person", .one⟩], []⟩]⟩ }

/-- Persons without a name whose manager is seven or eight years old. -/
def managedByChildren : Predicate :=
  .conjunction [
    .comparison ⟨.simple ⟨"Person", [], "name", .string, true⟩, .isNull, .none⟩,
    .existence .present ⟨"Person", ["manager"], "Person"⟩
      (some (.comparison ⟨.simple ⟨"Person", [], "age", .integer, false⟩, .isIn,
        .many [.integer ⟨7, by decide, by decide⟩, .integer ⟨8, by decide, by decide⟩]⟩))]

/-- Persons with a name that starts with an `a`, large or small. -/
def startsWithA : Predicate :=
  .comparison ⟨.derived .toLowerCase (.simple ⟨"Person", [], "name", .string, true⟩), .startsWith,
    .one (.string "a")⟩

theorem compile_managedByChildren :
    Language.compile staff {} "Person"
      "this.name is null & this.manager.exists(this.age in (7, 8, 7))" =
        .ok managedByChildren := by
  cbv

/-- The criteria for names that start with an `a`, large or small. -/
def startsWithACriteria : List (String × Json) :=
  [("name", .object [("toLowerCase", .object [("startsWith", .string "a")])])]

theorem bounded_startsWithACriteria : ∀ m ∈ startsWithACriteria, m.2.Bounded := by
  intro m hm
  obtain rfl := List.mem_singleton.1 hm
  refine .object ?_
  intro m hm
  obtain rfl := List.mem_singleton.1 hm
  refine .object ?_
  intro m hm
  obtain rfl := List.mem_singleton.1 hm
  exact .string

theorem convert_startsWithA :
    Structural.convert staff {} "Person" startsWithACriteria = .ok startsWithA := by
  rfl

theorem staff_predicates_wellTyped :
    managedByChildren.WellTyped staff {} "Person" ∧ startsWithA.WellTyped staff {} "Person" :=
  ⟨Accepted.predicate_wellTyped (.compiled compile_managedByChildren),
    Accepted.predicate_wellTyped (.converted bounded_startsWithACriteria convert_startsWithA)⟩

end Criteria
