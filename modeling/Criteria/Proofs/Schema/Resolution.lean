import Criteria.Scope
import Mathlib

/-! # Names resolved in a catalog

Walking from scope to scope succeeds exactly along the relationships that the catalog shows
(`navigateAll_iff`), and an attribute is found exactly where the catalog shows it
(`attributeRef_iff`). Both are stated with `Catalog.target?`, which follows a chain of
relationships from type to type without any scope.
-/

set_option autoImplicit false

namespace Criteria

/-! ## Results -/

theorem bind_eq_ok {ε α β : Type} {x : Except ε α} {f : α → Except ε β} {b : β} :
    (x >>= f) = .ok b ↔ ∃ a, x = .ok a ∧ f a = .ok b := by
  constructor
  · intro h
    cases x with
    | ok a => exact ⟨a, rfl, h⟩
    | error e => cases h
  · rintro ⟨a, rfl, h⟩
    exact h

theorem bind_eq_error {ε α β : Type} {x : Except ε α} {f : α → Except ε β} {e : ε} :
    (x >>= f) = .error e ↔ x = .error e ∨ ∃ a, x = .ok a ∧ f a = .error e := by
  constructor
  · intro h
    cases x with
    | ok a => exact .inr ⟨a, rfl, h⟩
    | error e' => exact .inl (congrArg Except.error (Except.error.inj h))
  · rintro (rfl | ⟨a, rfl, h⟩)
    · rfl
    · exact h

theorem map_eq_ok {ε α β : Type} {x : Except ε α} {f : α → β} {b : β} :
    x.map f = .ok b ↔ ∃ a, x = .ok a ∧ f a = b := by
  constructor
  · intro h
    cases x with
    | ok a => exact ⟨a, rfl, Except.ok.inj h⟩
    | error e => cases h
  · rintro ⟨a, rfl, rfl⟩
    rfl

theorem map_eq_error {ε α β : Type} {x : Except ε α} {f : α → β} {e : ε} :
    x.map f = .error e ↔ x = .error e := by
  cases x with
  | ok a => exact ⟨nofun, nofun⟩
  | error e' => exact ⟨fun h => congrArg Except.error (Except.error.inj h), fun h => h ▸ rfl⟩

theorem mapM_eq_ok {ε α β : Type} {f : α → Except ε β} {xs : List α} {ys : List β} :
    xs.mapM f = .ok ys ↔ List.Forall₂ (fun x y => f x = .ok y) xs ys := by
  induction xs generalizing ys with
  | nil =>
    rw [List.mapM_nil, List.forall₂_nil_left_iff]
    exact ⟨fun h => (Except.ok.inj h).symm, fun h => h ▸ rfl⟩
  | cons x xs ih =>
    rw [List.mapM_cons, bind_eq_ok, List.forall₂_cons_left_iff]
    simp only [bind_eq_ok, ih]
    constructor
    · rintro ⟨y, hy, ys, hys, h⟩
      exact ⟨y, ys, hy, hys, (Except.ok.inj h).symm⟩
    · rintro ⟨y, ys, hy, hys, rfl⟩
      exact ⟨y, hy, ys, hys, rfl⟩

/-! ## Kinds of members -/

/-- A kind of member: where a type has the members of the kind, what they are named, and how a name
is rejected on a type that has others. -/
structure MemberKind (α : Type) where
  members : EntityType → List α
  name : α → String
  unknown : String → String → List String → Rejection

namespace MemberKind

/-- The attributes. -/
def attributes : MemberKind Attribute :=
  ⟨EntityType.attributes, Attribute.name, Rejection.unknownAttribute⟩

/-- The relationships. -/
def relationships : MemberKind Relationship :=
  ⟨EntityType.relationships, Relationship.name, Rejection.unknownRelationship⟩

variable {α : Type} (k : MemberKind α)

/-- The member of the name, unless it is hidden. -/
def find? (c : Catalog) (typeName name : String) : Option α :=
  if name ∈ c.hidden then none
  else (c.entity? typeName).bind fun e => (k.members e).find? (k.name · = name)

/-- The names of the members of a type in the order of their declaration. -/
def names (c : Catalog) (typeName : String) : List String :=
  match c.entity? typeName with
  | some e => (k.members e).map k.name
  | none => []

variable {k} {c : Catalog} {typeName name : String} {a : α}

/-- The catalog shows members of types of its schema only. -/
theorem exists_entity (h : k.find? c typeName name = some a) :
    ∃ e, c.entity? typeName = some e ∧ (k.members e).find? (k.name · = name) = some a := by
  unfold find? at h
  rw [Option.ite_none_left_eq_some] at h
  exact Option.bind_eq_some_iff.1 h.2

theorem exists_mem (h : k.find? c typeName name = some a) :
    ∃ e ∈ c.schema.types, a ∈ k.members e ∧ k.name a = name := by
  obtain ⟨e, he, ha⟩ := exists_entity h
  have hname := List.find?_some ha
  exact ⟨e, List.mem_of_find?_eq_some he, List.mem_of_find?_eq_some ha, of_decide_eq_true hname⟩

theorem exists_mem_of_mem_names (h : name ∈ k.names c typeName) :
    ∃ e ∈ c.schema.types, ∃ a ∈ k.members e, k.name a = name := by
  unfold names at h
  split at h
  · rename_i e he
    exact ⟨e, List.mem_of_find?_eq_some he, List.mem_map.1 h⟩
  · cases h

end MemberKind

namespace Catalog

/-! ## Chains of relationships -/

/-- The type at the end of a chain of relationships. -/
def target? (c : Catalog) : String → List String → Option String
  | typeName, [] => some typeName
  | typeName, name :: names =>
    (c.relationship? typeName name).bind fun r => c.target? r.target names

theorem target?_append (c : Catalog) (typeName : String) (names others : List String) :
    c.target? typeName (names ++ others) =
      (c.target? typeName names).bind fun middle => c.target? middle others := by
  induction names generalizing typeName with
  | nil => rfl
  | cons name names ih =>
    simp only [List.cons_append, target?, Option.bind_assoc]
    congr 1
    funext r
    exact ih r.target

/-! ## Lookups -/

variable {c : Catalog}

theorem name_of_entity? {typeName : String} {e : EntityType} (h : c.entity? typeName = some e) :
    e.name = typeName := by
  have hname := List.find?_some h
  exact of_decide_eq_true hname

theorem attribute?_eq_some {typeName name : String} {a : Attribute}
    (h : c.attribute? typeName name = some a) :
    ∃ e, c.entity? typeName = some e ∧ e.attribute? name = some a :=
  MemberKind.attributes.exists_entity h

theorem relationship?_eq_some {typeName name : String} {r : Relationship}
    (h : c.relationship? typeName name = some r) :
    ∃ e, c.entity? typeName = some e ∧ e.relationship? name = some r :=
  MemberKind.relationships.exists_entity h

theorem exists_mem_of_attribute? {typeName name : String} {a : Attribute}
    (h : c.attribute? typeName name = some a) :
    ∃ e ∈ c.schema.types, a ∈ e.attributes ∧ a.name = name :=
  MemberKind.attributes.exists_mem h

theorem exists_mem_of_relationship? {typeName name : String} {r : Relationship}
    (h : c.relationship? typeName name = some r) :
    ∃ e ∈ c.schema.types, r ∈ e.relationships ∧ r.name = name :=
  MemberKind.relationships.exists_mem h

theorem name_of_attribute? {typeName name : String} {a : Attribute}
    (h : c.attribute? typeName name = some a) : a.name = name := by
  obtain ⟨_, _, _, hname⟩ := exists_mem_of_attribute? h
  exact hname

theorem requireType_iff {typeName : String} {e : EntityType} :
    c.requireType typeName = .ok e ↔ c.entity? typeName = some e := by
  unfold requireType
  cases c.entity? typeName with
  | none => simp
  | some found => simp

theorem root_iff {typeName : String} {s : Scope} :
    c.root typeName = .ok s ↔ (∃ e, c.entity? typeName = some e) ∧ s = Scope.root typeName := by
  unfold root
  rw [map_eq_ok]
  simp only [requireType_iff, eq_comm (a := Scope.root typeName)]
  exact ⟨fun ⟨e, he, hs⟩ => ⟨⟨e, he⟩, hs⟩, fun ⟨⟨e, he⟩, hs⟩ => ⟨e, he, hs⟩⟩

end Catalog

/-! ## Members of the current type -/

namespace MemberKind

variable {α : Type} {k : MemberKind α} {c : Catalog} {s : Scope} {name : String}

/-- The member of the current type that has the name. -/
def resolve (k : MemberKind α) (c : Catalog) (s : Scope) (name : String) : Except Rejection α := do
  let e ← c.requireType s.currentType
  match k.find? c e.name name with
  | some a => .ok a
  | none => .error (k.unknown name (simpleName e.name) (k.names c e.name))

theorem resolve_eq_ok {a : α} :
    k.resolve c s name = .ok a ↔ k.find? c s.currentType name = some a := by
  unfold resolve
  rw [bind_eq_ok]
  simp only [Catalog.requireType_iff]
  constructor
  · rintro ⟨e, he, h⟩
    rw [Catalog.name_of_entity? he] at h
    cases ha : k.find? c s.currentType name with
    | none => rw [ha] at h; cases h
    | some found => rw [ha] at h; exact congrArg some (Except.ok.inj h)
  · intro ha
    obtain ⟨e, he, -⟩ := exists_entity ha
    refine ⟨e, he, ?_⟩
    rw [Catalog.name_of_entity? he, ha]

/-- The rejection of a name lists the names that the type has. -/
theorem resolve_eq_error {e : EntityType} (he : c.entity? s.currentType = some e) {r : Rejection}
    (h : k.resolve c s name = .error r) :
    r = k.unknown name (simpleName s.currentType) ((k.members e).map k.name) := by
  unfold resolve at h
  rw [Catalog.requireType_iff.2 he] at h
  rcases bind_eq_error.1 h with h | ⟨found, hfound, h⟩
  · cases h
  · cases hfound
    rw [Catalog.name_of_entity? he, names, he] at h
    split at h
    · cases h
    · exact (Except.error.inj h).symm

end MemberKind

namespace Catalog

variable {c : Catalog}

/-! ## Steps between scopes -/

theorem navigate_eq_map (c : Catalog) (s : Scope) (name : String) :
    c.navigate s name =
      (MemberKind.relationships.resolve c s name).map fun r => s.enter name r.target := by
  unfold navigate MemberKind.resolve
  cases c.requireType s.currentType with
  | error r => rfl
  | ok e =>
    have hfind : MemberKind.relationships.find? c e.name name = c.relationship? e.name name := rfl
    dsimp only [bind, Except.bind]
    rw [hfind]
    cases c.relationship? e.name name <;> rfl

theorem attributeRef_eq_map (c : Catalog) (s : Scope) (name : String) :
    c.attributeRef s name = (MemberKind.attributes.resolve c s name).map s.reference := by
  unfold attributeRef MemberKind.resolve
  cases c.requireType s.currentType with
  | error r => rfl
  | ok e =>
    have hfind : MemberKind.attributes.find? c e.name name = c.attribute? e.name name := rfl
    dsimp only [bind, Except.bind]
    rw [hfind]
    cases c.attribute? e.name name <;> rfl

theorem navigate_iff {s s' : Scope} {name : String} :
    c.navigate s name = .ok s' ↔
      ∃ r, c.relationship? s.currentType name = some r ∧ s' = s.enter name r.target := by
  rw [navigate_eq_map, map_eq_ok]
  simp only [MemberKind.resolve_eq_ok, eq_comm (b := s')]
  rfl

theorem navigateAll_iff {s s' : Scope} {names : List String} :
    c.navigateAll s names = .ok s' ↔
      ∃ target, c.target? s.currentType names = some target ∧
        s' = ⟨s.rootType, s.navigation ++ names, target⟩ := by
  unfold navigateAll
  -- Along the names: the scope moves on, and the rest starts where the first hop leads.
  induction names generalizing s with
  | nil =>
    simp only [List.foldlM_nil, target?, List.append_nil]
    constructor
    · intro h
      exact ⟨s.currentType, rfl, (Except.ok.inj h).symm⟩
    · rintro ⟨target, h, rfl⟩
      cases h
      rfl
  | cons name names ih =>
    rw [List.foldlM_cons, bind_eq_ok]
    simp only [navigate_iff, target?, Option.bind_eq_some_iff]
    constructor
    · rintro ⟨_, ⟨r, hr, rfl⟩, h⟩
      obtain ⟨target, htarget, rfl⟩ := ih.1 h
      exact ⟨target, ⟨r, hr, htarget⟩, by simp [Scope.enter]⟩
    · rintro ⟨target, ⟨r, hr, htarget⟩, rfl⟩
      refine ⟨s.enter name r.target, ⟨r, hr, rfl⟩, ih.2 ⟨target, htarget, ?_⟩⟩
      simp [Scope.enter]

theorem attributeRef_iff {s : Scope} {name : String} {a : AttributeRef} :
    c.attributeRef s name = .ok a ↔
      ∃ found, c.attribute? s.currentType name = some found ∧ a = s.reference found := by
  rw [attributeRef_eq_map, map_eq_ok]
  simp only [MemberKind.resolve_eq_ok, eq_comm (b := a)]
  rfl

/-- A field is an attribute, or else a relationship of the current type. -/
theorem field_iff {s : Scope} {name : String} {found : Resolved} :
    c.field s name = .ok found ↔
      (∃ a, c.attribute? s.currentType name = some a ∧ found = .attr (s.reference a)) ∨
        c.attribute? s.currentType name = none ∧
          ∃ r, c.relationship? s.currentType name = some r ∧
            found = .relationship (s.enter name r.target) := by
  unfold field
  rw [bind_eq_ok]
  simp only [requireType_iff]
  constructor
  · rintro ⟨e, he, h⟩
    rw [name_of_entity? he] at h
    cases ha : c.attribute? s.currentType name with
    | some a => rw [ha] at h; exact .inl ⟨a, rfl, (Except.ok.inj h).symm⟩
    | none =>
      rw [ha] at h
      cases hr : c.relationship? s.currentType name with
      | some r => rw [hr] at h; exact .inr ⟨rfl, r, rfl, (Except.ok.inj h).symm⟩
      | none => rw [hr] at h; cases h
  · rintro (⟨a, ha, rfl⟩ | ⟨ha, r, hr, rfl⟩)
    · obtain ⟨e, he, -⟩ := attribute?_eq_some ha
      refine ⟨e, he, ?_⟩
      rw [name_of_entity? he, ha]
    · obtain ⟨e, he, -⟩ := relationship?_eq_some hr
      refine ⟨e, he, ?_⟩
      rw [name_of_entity? he, ha]
      dsimp only
      rw [hr]

end Catalog

end Criteria
