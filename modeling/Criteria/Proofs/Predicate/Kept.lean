import Criteria.Proofs.Operators.Typing
import Criteria.Proofs.Predicate.Shape

/-! # Properties kept while predicates are built

Both front ends build predicates from constants, comparisons, existence tests, `and` and `or`, and
both resolve names from scope to scope. What a property of predicates has to respect so that it
holds of everything they build is collected in `Predicate.Kept`; a scope that was reached over
relationships of the catalog (`Scope.Reached`) yields well-typed references and chains.
-/

set_option autoImplicit false

namespace Criteria

/-! ## Typing of predicates -/

/-- The chain leads from the root type over relationships that the catalog shows to its target
type. -/
structure RelationshipPath.WellTyped (c : Catalog) (root : String) (r : RelationshipPath) :
    Prop where
  rootType : r.rootType = root
  nonempty : r.segments ≠ []
  target : c.target? r.rootType r.segments = some r.targetType

/-- Every relationship of the chain has a name of the given sort. -/
def RelationshipPath.Named (Name : String → Prop) (r : RelationshipPath) : Prop :=
  ∀ name ∈ r.segments, Name name

/-- Every relationship on the way to the attribute and the attribute have a name of the given
sort. -/
def AttributeRef.Named (Name : String → Prop) (a : AttributeRef) : Prop :=
  (∀ name ∈ a.path.navigation, Name name) ∧ Name a.path.name

namespace Predicate

/-- Every comparison and every chain of relationships is well typed. -/
def WellTyped (c : Catalog) (limits : Limits) (root : String) (p : Predicate) : Prop :=
  p.Everywhere (Comparison.WellTyped c limits) (RelationshipPath.WellTyped c) root

/-- Every member that the predicate refers to has a name of the given sort. -/
def Named (Name : String → Prop) (root : String) (p : Predicate) : Prop :=
  p.Everywhere (fun _ found => found.operand.Named Name) (fun _ r => r.Named Name) root

/-! ## Kept properties -/

/-- A property that the constants and well-typed comparisons have, and that combinations and
existence tests over well-typed chains inherit from their parts. Members bear names of the given
sort. -/
structure Kept (c : Catalog) (limits : Limits) (Name : String → Prop)
    (P : String → Predicate → Prop) : Prop where
  all (root : String) : P root all
  none (root : String) : P root none
  and {root : String} {p q : Predicate} : P root p → P root q → P root (p.and q)
  or {root : String} {p q : Predicate} : P root p → P root q → P root (p.or q)
  existence {root : String} {test : Existence} {r : RelationshipPath}
    {filter : Option Predicate} : r.WellTyped c root → r.Named Name →
      (∀ p ∈ filter, P r.targetType p) → P root (existence test r filter)
  comparison {root : String} {found : Comparison} : found.WellTyped c limits root →
    found.operand.Named Name → P root (comparison found)

namespace Kept

variable (c : Catalog) (limits : Limits) (Name : String → Prop)

theorem wellTyped : Kept c limits Name (WellTyped c limits) where
  all _ := .all
  none _ := .none
  and := .and
  or := .or
  existence h _ inner := .existence h inner
  comparison h _ := .comparison h

theorem named : Kept c limits Name (Named Name) where
  all _ := .all
  none _ := .none
  and := .and
  or := .or
  existence _ h inner := .existence h inner
  comparison _ h := .comparison h

theorem normal : Kept c limits Name fun _ p => p.Normal where
  all _ := .all
  none _ := .none
  and := .and
  or := .or
  existence _ _ inner := .existence inner
  comparison _ _ := .comparison

variable {c limits Name} {P : String → Predicate → Prop}

/-- What a comparison operator yields has the property. -/
theorem outcome (k : Kept c limits Name P) {root : String} {a : AttributeRef} {p : Predicate}
    (ha : a.Named Name) (h : p.IsOutcome c limits root a) : P root p := by
  rcases h with rfl | rfl | ⟨found, rfl, rfl, hfound⟩
  · exact k.all root
  · exact k.none root
  · exact k.comparison hfound ha

end Kept

end Predicate

/-! ## Scopes -/

/-- Every member that the catalog shows has a name of the given sort. -/
structure Catalog.Named (Name : String → Prop) (c : Catalog) : Prop where
  attr {typeName name : String} {a : Attribute} : c.attribute? typeName name = some a → Name name
  relationship {typeName name : String} {r : Relationship} :
    c.relationship? typeName name = some r → Name name

/-- Every member that a schema declares has a name of the given sort. -/
def Schema.Named (Name : String → Prop) (s : Schema) : Prop :=
  ∀ e ∈ s.types, (∀ a ∈ e.attributes, Name a.name) ∧ ∀ r ∈ e.relationships, Name r.name

/-- A catalog shows no members but those that its schema declares. -/
theorem Schema.Named.catalog {Name : String → Prop} {c : Catalog} (h : c.schema.Named Name) :
    c.Named Name where
  attr {typeName name a} ha := by
    obtain ⟨e, he, hfound, rfl⟩ := Catalog.exists_mem_of_attribute? ha
    exact (h e he).1 a hfound
  relationship {typeName name r} hr := by
    obtain ⟨e, he, hfound, rfl⟩ := Catalog.exists_mem_of_relationship? hr
    exact (h e he).2 r hfound

theorem Scope.relationshipPath?_eq_some {s : Scope} {r : RelationshipPath} :
    s.relationshipPath? = some r ↔
      s.navigation ≠ [] ∧ r = ⟨s.rootType, s.navigation, s.currentType⟩ := by
  unfold relationshipPath? isRoot
  cases s.navigation with
  | nil => simp
  | cons name names => simp [eq_comm]

/-- The catalog shows a relationship under every name on the way to the current type, and the
names are of the given sort. -/
structure Scope.Reached (c : Catalog) (Name : String → Prop) (s : Scope) : Prop where
  target : c.target? s.rootType s.navigation = some s.currentType
  names : ∀ name ∈ s.navigation, Name name

namespace Scope.Reached

variable {c : Catalog} {Name : String → Prop}

theorem root (typeName : String) : (Scope.root typeName).Reached c Name :=
  ⟨rfl, fun _ h => nomatch h⟩

variable {s : Scope} (h : s.Reached c Name)
include h

theorem append {names : List String} {target : String}
    (htarget : c.target? s.currentType names = some target) (hnames : ∀ name ∈ names, Name name) :
    Reached c Name ⟨s.rootType, s.navigation ++ names, target⟩ := by
  refine ⟨?_, List.forall_mem_append.2 ⟨h.names, hnames⟩⟩
  rw [Catalog.target?_append, h.target]
  exact htarget

theorem enter {name : String} {r : Relationship}
    (hr : c.relationship? s.currentType name = some r) (hname : Name name) :
    (s.enter name r.target).Reached c Name := by
  refine h.append ?_ (by simpa using hname)
  simp [Catalog.target?, hr]

theorem reference {name : String} {a : Attribute}
    (ha : c.attribute? s.currentType name = some a) (hname : Name name) :
    (s.reference a).WellTyped c s.rootType ∧ (s.reference a).Named Name := by
  obtain rfl := Catalog.name_of_attribute? ha
  exact ⟨⟨rfl, s.currentType, h.target, ha⟩, h.names, hname⟩

theorem relationshipPath (hne : s.navigation ≠ []) :
    RelationshipPath.WellTyped c s.rootType ⟨s.rootType, s.navigation, s.currentType⟩ ∧
      RelationshipPath.Named Name ⟨s.rootType, s.navigation, s.currentType⟩ :=
  ⟨⟨rfl, hne, h.target⟩, h.names⟩

end Scope.Reached

end Criteria
