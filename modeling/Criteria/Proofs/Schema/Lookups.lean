import Criteria.Proofs.Results
import Criteria.Proofs.Schema.Loading
import Criteria.Proofs.Schema.Walks

/-! # Three ways to look a name up

A name can be looked up as an attribute, as a relationship, or as a field, which is either. In a
schema that is loaded the three agree in every scope (`Catalog.lookups_agree`): no name is both,
since no declaration makes it so, and whatever is hidden is hidden from all three.
-/

set_option autoImplicit false

namespace Criteria.Catalog

variable {c : Catalog} {s : Scope} {name : String}

/-- An attribute that is found is found as a field, for attributes are looked up first. -/
theorem field_eq_attr_iff {a : AttributeRef} :
    c.field s name = .ok (.attr a) ↔ c.attributeRef s name = .ok a := by
  rw [field_iff, attributeRef_iff]
  constructor
  · rintro (⟨found, hfound, h⟩ | ⟨-, r, -, h⟩)
    · exact ⟨found, hfound, Resolved.attr.inj h⟩
    · cases h
  · rintro ⟨found, hfound, rfl⟩
    exact .inl ⟨found, hfound, rfl⟩

/-- Where a name stands for one member at most, a relationship that is found is found as a field. -/
theorem field_eq_relationship_iff
    (hone : c.attribute? s.currentType name = none ∨ c.relationship? s.currentType name = none)
    {target : Scope} :
    c.field s name = .ok (.relationship target) ↔ c.navigate s name = .ok target := by
  rw [field_iff, navigate_iff]
  constructor
  · rintro (⟨a, -, h⟩ | ⟨-, r, hr, h⟩)
    · cases h
    · exact ⟨r, hr, Resolved.relationship.inj h⟩
  · rintro ⟨r, hr, rfl⟩
    have hnone : c.attribute? s.currentType name = none := by
      rcases hone with hattr | hrelationship
      · exact hattr
      · rw [hr] at hrelationship
        cases hrelationship
    exact .inr ⟨hnone, r, hr, rfl⟩

/-- Wherever a name is looked up in a schema that is loaded, and whatever is hidden: as a field it
is the attribute that it is as an attribute, and the relationship that it is as a relationship; it
is never both, and it is no field exactly if it is neither. -/
theorem lookups_agree (h : c.schema.Loadable) (s : Scope) (name : String) :
    (∀ a, c.field s name = .ok (.attr a) ↔ c.attributeRef s name = .ok a) ∧
      (∀ target, c.field s name = .ok (.relationship target) ↔ c.navigate s name = .ok target) ∧
      ¬ ((∃ a, c.attributeRef s name = .ok a) ∧ ∃ target, c.navigate s name = .ok target) ∧
      ((∃ e, c.field s name = .error e) ↔
        (∃ e, c.attributeRef s name = .error e) ∧ ∃ e, c.navigate s name = .error e) := by
  have hone := attribute?_eq_none_or_relationship?_eq_none h s.currentType name
  have hattr (a : AttributeRef) :
      c.field s name = .ok (.attr a) ↔ c.attributeRef s name = .ok a := field_eq_attr_iff
  have hrelationship (target : Scope) :
      c.field s name = .ok (.relationship target) ↔ c.navigate s name = .ok target :=
    field_eq_relationship_iff hone
  refine ⟨hattr, hrelationship, ?_, ?_⟩
  · -- Both would be what the one field of the name is.
    rintro ⟨⟨a, ha⟩, target, htarget⟩
    have hfield := (hattr a).2 ha
    rw [(hrelationship target).2 htarget] at hfield
    cases hfield
  · simp only [exists_error_iff, ne_eq, ← hattr, ← hrelationship]
    constructor
    · intro hnone
      exact ⟨fun a => hnone (.attr a), fun target => hnone (.relationship target)⟩
    · rintro ⟨hnoAttr, hnoRelationship⟩ found
      cases found with
      | attr a => exact hnoAttr a
      | relationship target => exact hnoRelationship target

/-- The members of a shop, the relationships of its orders declared in front of their attributes. -/
def shopDeclarations : List (String × List Member) :=
  [("Person", [.ofAttribute ⟨"name", .string, false⟩, .ofRelationship ⟨"orders", "Order", .many⟩]),
    ("Order",
      [.ofRelationship ⟨"customer", "Person", .one⟩, .ofAttribute ⟨"total", .double, true⟩])]

/-- From the orders of a person, customers are found as a relationship and as a field, and the
totals, which are hidden, as neither. -/
theorem shop_lookups_agree :
    shop.schema.Loadable ∧
      shop.field ⟨"Person", ["orders"], "Order"⟩ "customer" =
        .ok (.relationship ⟨"Person", ["orders", "customer"], "Person"⟩) ∧
      ∃ e, shop.field ⟨"Person", ["orders"], "Order"⟩ "total" = .error e := by
  have hloadable : shop.schema.Loadable := ⟨shopDeclarations, rfl⟩
  refine ⟨hloadable, ?_, ?_⟩
  · obtain ⟨-, hrelationship, -, -⟩ :=
      lookups_agree hloadable ⟨"Person", ["orders"], "Order"⟩ "customer"
    exact (hrelationship _).2 rfl
  · obtain ⟨-, -, -, hneither⟩ :=
      lookups_agree hloadable ⟨"Person", ["orders"], "Order"⟩ "total"
    exact hneither.2 ⟨⟨_, rfl⟩, ⟨_, rfl⟩⟩

end Criteria.Catalog
