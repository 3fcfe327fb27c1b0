import Criteria.Proofs.Schema.Lookups

/-! # Names that are offered

Where a name means nothing, the message lists the names that are valid. They stand in the order of
the declarations (`Schema.BuiltFrom.exists_members`), and all of them are listed, whereas a look-up
finds those that are not hidden. So the list is exactly that of the names that are found if nothing
on it is hidden (`Catalog.offered_exact_iff`).
-/

set_option autoImplicit false

namespace Criteria

/-! ## Lists of names -/

/-- Some of the declared names, in their order: exactly those that are found. -/
structure ListsFound (declared : List String) (Found : String → Prop) (listed : List String) :
    Prop where
  ordered : listed.Sublist declared
  found : ∀ name, Found name ↔ name ∈ listed

/-- What is listed of the declared names where some names are hidden. -/
structure Offers (hidden declared : List String) (Found : String → Prop) (offered : List String) :
    Prop where
  /-- Every declared name is. -/
  all : offered = declared
  /-- The names that are found would be listed without those that are hidden. -/
  shown : ListsFound declared Found (declared.filter (· ∉ hidden))
  /-- The names that are found are listed exactly if none on the list is hidden. -/
  exact_iff : ListsFound declared Found offered ↔ ∀ name ∈ offered, name ∉ hidden

theorem Offers.of_found {hidden declared : List String} {Found : String → Prop}
    (h : ∀ name, Found name ↔ name ∈ declared ∧ name ∉ hidden) :
    Offers hidden declared Found declared where
  all := rfl
  shown := ⟨List.filter_sublist, fun name => by rw [h, List.mem_filter, decide_eq_true_iff]⟩
  exact_iff := by
    constructor
    · intro hlists name hname
      exact ((h name).1 ((hlists.found name).2 hname)).2
    · intro hshown
      refine ⟨List.Sublist.refl _, fun name => ?_⟩
      rw [h]
      exact ⟨fun hname => hname.1, fun hname => ⟨hname, hshown name hname⟩⟩

/-! ## Types as they are declared -/

/-- The names of the attributes among the declarations. -/
def attributesOf (members : List Member) : List String :=
  (members.filterMap Member.attribute?).map (·.name)

/-- The names of the relationships among the declarations. -/
def relationshipsOf (members : List Member) : List String :=
  (members.filterMap Member.relationship?).map (·.name)

/-- The schema is built from types whose members are declared one after the other. -/
def Schema.BuiltFrom (s : Schema) (declarations : List (String × List Member)) : Prop :=
  build (declarations.map fun t => EntityType.ofMembers t.1 t.2) = .ok s

variable {declarations : List (String × List Member)} {s : Schema} {c : Catalog}

/-- A type without duplicates has its members in the order of their declarations. -/
theorem EntityType.ofMembers_of_duplicates {typeName : String} {members : List Member}
    (h : (ofMembers typeName members).duplicates = []) :
    ofMembers typeName members =
      ⟨typeName, members.filterMap Member.attribute?, members.filterMap Member.relationship?,
        []⟩ := by
  have hnodup : (members.map Member.name).Nodup := by
    rw [List.nodup_iff_forall_not_duplicate]
    intro name hname
    have hmem : name ∈ (ofMembers typeName members).duplicates :=
      mem_duplicates_ofMembers.2 hname
    rw [h] at hmem
    cases hmem
  rw [ofMembers, foldl_declare_new _ hnodup]
  · simp [empty]
  · intro m _ hmem
    simp [memberNames, empty] at hmem

/-- A type of a schema that is loaded has the members that are declared, in their order. -/
theorem Schema.BuiltFrom.exists_members (h : s.BuiltFrom declarations) {typeName : String}
    {e : EntityType} (he : s.entity? typeName = some e) :
    ∃ members, (typeName, members) ∈ declarations ∧
      e = ⟨typeName, members.filterMap Member.attribute?, members.filterMap Member.relationship?,
        []⟩ := by
  obtain ⟨rfl, -, hmembers⟩ := build_eq_ok.1 h
  have hmem := List.mem_of_find?_eq_some he
  obtain ⟨⟨declared, members⟩, hdeclared, rfl⟩ := List.mem_map.1 hmem
  have hname := List.find?_some he
  have htype : declared = typeName := by simpa using hname
  subst htype
  have hduplicates := (memberError?_eq_none.1 (hmembers _ hmem)).1
  exact ⟨members, hdeclared, EntityType.ofMembers_of_duplicates hduplicates⟩

theorem EntityType.toEntity_document {e : EntityType} (hduplicates : e.duplicates = [])
    (hmembers : e.memberNames.Nodup) : e.document.toEntity = .ok e := by
  have hrelationships : (e.relationships.map Relationship.document).map
      RelationshipDocument.relationship = e.relationships := by
    rw [List.map_map]
    exact List.map_id e.relationships
  refine TypeDocument.toEntity_eq_ok.2 ⟨e.attributes, rfl, ?_⟩
  rw [document, hrelationships, ofMembers_of_nodup hmembers, ← hduplicates]

/-- A schema that is loaded, in whatever way, is what its own document declares. -/
theorem Schema.Loadable.toSchema_document (h : s.Loadable) : s.document.toSchema = .ok s := by
  have hmembers := h.nodup.2
  obtain ⟨declarations, hbuild⟩ := h
  obtain ⟨rfl, hnames, herrors⟩ := build_eq_ok.1 hbuild
  refine bind_eq_ok.2 ⟨_, mapM_eq_ok.2 ?_, build_eq_ok.2 ⟨rfl, hnames, herrors⟩⟩
  rw [document, List.forall₂_map_left_iff, List.forall₂_same]
  intro e he
  exact e.toEntity_document (memberError?_eq_none.1 (herrors e he)).1 (hmembers e he)

/-! ## Names that mean nothing -/

variable {scope : Scope} {name : String} {e : EntityType} {r : Rejection}

/-- The members that are found are those of the type that are not hidden. -/
theorem MemberKind.exists_map_resolve_iff {α β : Type} (k : MemberKind α) (f : α → β)
    (he : c.entity? scope.currentType = some e) :
    (∃ b, (k.resolve c scope name).map f = .ok b) ↔
      name ∈ (k.members e).map k.name ∧ name ∉ c.hidden := by
  have hfound : (∃ b, (k.resolve c scope name).map f = .ok b) ↔
      (k.find? c scope.currentType name).isSome = true := by
    rw [Option.isSome_iff_exists]
    simp only [map_eq_ok, resolve_eq_ok]
    exact ⟨fun ⟨_, a, ha, _⟩ => ⟨a, ha⟩, fun ⟨a, ha⟩ => ⟨_, a, ha, rfl⟩⟩
  rw [hfound, find?, he, ← isSome_find?_name k.name (k.members e) name]
  by_cases hname : name ∈ c.hidden
  · simp [hname]
  · simp [hname]

namespace Catalog

theorem exists_attributeRef_iff (he : c.entity? scope.currentType = some e) :
    (∃ a, c.attributeRef scope name = .ok a) ↔
      name ∈ e.attributes.map (·.name) ∧ name ∉ c.hidden := by
  rw [attributeRef_eq_map]
  exact MemberKind.attributes.exists_map_resolve_iff scope.reference he

theorem exists_navigate_iff (he : c.entity? scope.currentType = some e) :
    (∃ target, c.navigate scope name = .ok target) ↔
      name ∈ e.relationships.map (·.name) ∧ name ∉ c.hidden := by
  rw [navigate_eq_map]
  exact MemberKind.relationships.exists_map_resolve_iff _ he

/-- The message about an attribute lists all attributes of the type. -/
theorem attributeRef_eq_error (he : c.entity? scope.currentType = some e)
    (h : c.attributeRef scope name = .error r) :
    r = .unknownAttribute name (simpleName scope.currentType) (e.attributes.map (·.name)) := by
  rw [attributeRef_eq_map, map_eq_error] at h
  exact MemberKind.resolve_eq_error he h

/-- The message about a relationship lists all relationships of the type. -/
theorem navigate_eq_error (he : c.entity? scope.currentType = some e)
    (h : c.navigate scope name = .error r) :
    r = .unknownRelationship name (simpleName scope.currentType)
      (e.relationships.map (·.name)) := by
  rw [navigate_eq_map, map_eq_error] at h
  exact MemberKind.resolve_eq_error he h

/-- Wherever a walk leads in a schema that is loaded: the message about a name that is no attribute
lists the attributes that are declared, of which the hidden ones are not found; and so it is with
relationships. -/
theorem offered_exact_iff (h : c.schema.BuiltFrom declarations) {rootType : String}
    {start : Scope} (hstart : c.root rootType = .ok start) (moves : List Move)
    (hscope : ((Walk.start start).run c moves).scope = scope) :
    ∃ members, (scope.currentType, members) ∈ declarations ∧
      (∀ name r, c.attributeRef scope name = .error r →
        ∃ offered, r = .unknownAttribute name (simpleName scope.currentType) offered ∧
          Offers c.hidden (attributesOf members)
            (fun name => ∃ a, c.attributeRef scope name = .ok a) offered) ∧
      ∀ name r, c.navigate scope name = .error r →
        ∃ offered, r = .unknownRelationship name (simpleName scope.currentType) offered ∧
          Offers c.hidden (relationshipsOf members)
            (fun name => ∃ target, c.navigate scope name = .ok target) offered := by
  obtain ⟨htype, rfl⟩ := root_iff.1 hstart
  have hloadable : c.schema.Loadable := ⟨declarations, h⟩
  have hkept := (Walk.Kept.start htype).run hloadable.toSchema_document moves
  rw [← hscope]
  obtain ⟨e, he⟩ := hkept.known.type
  obtain ⟨members, hmembers, rfl⟩ := h.exists_members he
  refine ⟨members, hmembers, ?_, ?_⟩
  · intro name r herror
    exact ⟨_, attributeRef_eq_error he herror, .of_found fun _ => exists_attributeRef_iff he⟩
  · intro name r herror
    exact ⟨_, navigate_eq_error he herror, .of_found fun _ => exists_navigate_iff he⟩

/-- The orders of a person, whose totals are hidden. -/
def shopOrders : Scope := ⟨"Person", ["orders"], "Order"⟩

theorem shop_offers :
    ∃ members, ("Order", members) ∈ shopDeclarations ∧
      (∀ name r, shop.attributeRef shopOrders name = .error r →
        ∃ offered, r = .unknownAttribute name (simpleName "Order") offered ∧
          Offers shop.hidden (attributesOf members)
            (fun name => ∃ a, shop.attributeRef shopOrders name = .ok a) offered) ∧
      ∀ name r, shop.navigate shopOrders name = .error r →
        ∃ offered, r = .unknownRelationship name (simpleName "Order") offered ∧
          Offers shop.hidden (relationshipsOf members)
            (fun name => ∃ target, shop.navigate shopOrders name = .ok target) offered :=
  have hbuilt : shop.schema.BuiltFrom shopDeclarations := rfl
  have hstart : shop.root "Person" = .ok (Scope.root "Person") := rfl
  offered_exact_iff hbuilt hstart [.navigate "orders"] rfl

/-- The total of an order is not found, and it is the one attribute that is offered instead. -/
theorem shop_offers_total :
    shop.navigateAll (Scope.root "Person") ["orders"] = .ok shopOrders ∧
      shop.attributeRef shopOrders "total" =
        .error (.unknownAttribute "total" "Order" ["total"]) ∧
      (Rejection.unknownAttribute "total" "Order" ["total"]).message =
        "Could not find attribute 'total' on type 'Order'. Valid attributes: [total]" ∧
      ¬ListsFound ["total"] (fun name => ∃ a, shop.attributeRef shopOrders name = .ok a)
        ["total"] := by
  have herror : shop.attributeRef shopOrders "total" =
      .error (.unknownAttribute "total" "Order" ["total"]) := by cbv
  refine ⟨by cbv, herror, by decide +kernel, ?_⟩
  intro hlists
  obtain ⟨a, ha⟩ := (hlists.found "total").2 List.mem_cons_self
  rw [herror] at ha
  cases ha

end Catalog

end Criteria
