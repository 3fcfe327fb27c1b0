import Criteria.Proofs.Results
import Criteria.Proofs.Schema.Hiding
import Criteria.Proofs.Schema.Members

/-! # What loads as a schema

A document declares a schema exactly if its names fit together (`SchemaDocument.Valid`). The schema
then has the document as its own (`Schema.document`), member for member and in the same order, and a
look-up finds what is declared and nothing else. Where a document declares none, the error names one
of its faults, and none of the checks that come first has found another (`SchemaDocument.Reported`).
-/

set_option autoImplicit false

namespace Criteria

theorem ValueType.ofTag?_eq_some {tag : String} {v : ValueType} :
    ofTag? tag = some v ↔ v.tag = tag := by
  constructor
  · intro h
    have htag := List.find?_some h
    exact of_decide_eq_true htag
  · rintro rfl
    exact ofTag?_tag v

theorem ValueType.ofTag?_eq_none {tag : String} :
    ofTag? tag = none ↔ ∀ v : ValueType, v.tag ≠ tag := by
  simp only [Option.eq_none_iff_forall_ne_some, ne_eq, ofTag?_eq_some]

/-! ## The document of a schema -/

/-- The declaration of the attribute. -/
def Attribute.document (a : Attribute) : AttributeDocument := ⟨a.name, a.valueType.tag, a.nullable⟩

/-- The declaration of the relationship. -/
def Relationship.document (r : Relationship) : RelationshipDocument :=
  ⟨r.name, r.target, r.cardinality⟩

/-- The declaration of the type. -/
def EntityType.document (e : EntityType) : TypeDocument :=
  ⟨e.name, e.attributes.map Attribute.document, e.relationships.map Relationship.document⟩

/-- The document that declares the types of the schema. -/
def Schema.document (s : Schema) : SchemaDocument := ⟨s.types.map EntityType.document⟩

theorem Attribute.document_injective : Function.Injective document := by
  rintro ⟨name, v, nullable⟩ ⟨name', v', nullable'⟩ h
  simp only [document, AttributeDocument.mk.injEq] at h
  obtain ⟨rfl, htag, rfl⟩ := h
  have hv : ValueType.ofTag? v.tag = some v' := ValueType.ofTag?_eq_some.2 htag.symm
  rw [ValueType.ofTag?_tag] at hv
  cases hv
  rfl

theorem Relationship.document_injective : Function.Injective document := by
  rintro ⟨name, target, cardinality⟩ ⟨name', target', cardinality'⟩ h
  simpa [document] using h

/-- The relationship that is declared. -/
def RelationshipDocument.relationship (r : RelationshipDocument) : Relationship :=
  ⟨r.name, r.target, r.cardinality⟩

/-! ## One type -/

/-- The names of all members that are declared, those of attributes in front. -/
def TypeDocument.memberNames (t : TypeDocument) : List String :=
  t.attributes.map (·.name) ++ t.relationships.map (·.name)

theorem AttributeDocument.toMember_eq_ok {typeName : String} {a : AttributeDocument}
    {m : Member} :
    a.toMember typeName = .ok m ↔
      ∃ found : Attribute, found.document = a ∧ m = .ofAttribute found := by
  unfold toMember
  constructor
  · intro h
    split at h
    · rename_i v hv
      cases h
      refine ⟨⟨a.name, v, a.nullable⟩, ?_, rfl⟩
      rw [Attribute.document, ValueType.ofTag?_eq_some.1 hv]
    · cases h
  · rintro ⟨found, rfl, rfl⟩
    simp [Attribute.document, ValueType.ofTag?_tag]

theorem AttributeDocument.toMember_eq_error {typeName : String} {a : AttributeDocument}
    {e : SchemaError} (h : a.toMember typeName = .error e) :
    (∀ v : ValueType, v.tag ≠ a.valueType) ∧
      e = .unknownValueType typeName a.name a.valueType := by
  unfold toMember at h
  split at h
  · cases h
  · rename_i hnone
    cases h
    exact ⟨ValueType.ofTag?_eq_none.1 hnone, rfl⟩

theorem mapM_toMember_eq_ok {typeName : String} {attributes : List AttributeDocument}
    {members : List Member} :
    attributes.mapM (AttributeDocument.toMember typeName) = .ok members ↔
      ∃ found : List Attribute, found.map Attribute.document = attributes ∧
        members = found.map .ofAttribute := by
  rw [mapM_eq_ok]
  constructor
  · intro h
    induction h with
    | nil => exact ⟨[], rfl, rfl⟩
    | cons ha _ ih =>
      obtain ⟨a, rfl, rfl⟩ := AttributeDocument.toMember_eq_ok.1 ha
      obtain ⟨found, rfl, rfl⟩ := ih
      exact ⟨a :: found, rfl, rfl⟩
  · rintro ⟨found, rfl, rfl⟩
    rw [List.forall₂_map_left_iff, List.forall₂_map_right_iff, List.forall₂_same]
    exact fun a _ => AttributeDocument.toMember_eq_ok.2 ⟨a, rfl, rfl⟩

namespace TypeDocument

variable {t : TypeDocument} {e : EntityType}

theorem toEntity_eq_ok :
    t.toEntity = .ok e ↔
      ∃ attributes : List Attribute, attributes.map Attribute.document = t.attributes ∧
        e = .ofMembers t.name (attributes.map .ofAttribute ++
          (t.relationships.map RelationshipDocument.relationship).map .ofRelationship) := by
  have hrelationships : t.relationships.map RelationshipDocument.toMember =
      (t.relationships.map RelationshipDocument.relationship).map .ofRelationship := by
    rw [List.map_map]
    rfl
  unfold toEntity
  simp only [bind_eq_ok, mapM_toMember_eq_ok, hrelationships]
  constructor
  · rintro ⟨_, ⟨attributes, hattributes, rfl⟩, h⟩
    exact ⟨attributes, hattributes, (Except.ok.inj h).symm⟩
  · rintro ⟨attributes, hattributes, rfl⟩
    exact ⟨_, ⟨attributes, hattributes, rfl⟩, rfl⟩

theorem name_toEntity (h : t.toEntity = .ok e) : e.name = t.name := by
  obtain ⟨_, _, rfl⟩ := toEntity_eq_ok.1 h
  exact EntityType.name_ofMembers _ _

/-- The names that a type notes as duplicates are those that its document declares again. -/
theorem mem_duplicates_toEntity (h : t.toEntity = .ok e) {name : String} :
    name ∈ e.duplicates ↔ List.Duplicate name t.memberNames := by
  obtain ⟨attributes, hattributes, rfl⟩ := toEntity_eq_ok.1 h
  rw [EntityType.mem_duplicates_ofMembers, memberNames, ← hattributes]
  simp [Function.comp_def, Member.name, Attribute.document, RelationshipDocument.relationship]

theorem duplicates_toEntity_eq_nil (h : t.toEntity = .ok e) :
    e.duplicates = [] ↔ t.memberNames.Nodup := by
  rw [List.eq_nil_iff_forall_not_mem, List.nodup_iff_forall_not_duplicate]
  exact forall_congr' fun name => not_congr (mem_duplicates_toEntity h)

/-- A type whose members are declared once lists them as they are declared. -/
theorem document_toEntity (h : t.toEntity = .ok e) (hmembers : t.memberNames.Nodup) :
    e.document = t := by
  obtain ⟨attributes, hattributes, rfl⟩ := toEntity_eq_ok.1 h
  rw [memberNames, ← hattributes] at hmembers
  have hdistinct : (attributes.map (·.name) ++
      (t.relationships.map RelationshipDocument.relationship).map (·.name)).Nodup := by
    simpa [Function.comp_def, Attribute.document, RelationshipDocument.relationship]
      using hmembers
  rw [EntityType.ofMembers_of_nodup hdistinct, EntityType.document, hattributes]
  simp [Function.comp_def, Relationship.document, RelationshipDocument.relationship]

end TypeDocument

/-! ## All types -/

namespace Schema

theorem repeatedName?_eq_none {seen : List String} {types : List EntityType} :
    repeatedName? seen types = none ↔
      (types.map (·.name)).Nodup ∧ ∀ e ∈ types, e.name ∉ seen := by
  induction types generalizing seen with
  | nil => simp [repeatedName?]
  | cons e types ih =>
    rw [repeatedName?, List.map_cons, List.nodup_cons, List.forall_mem_cons]
    by_cases he : e.name ∈ seen
    · simp [he]
    · simp only [he, if_false, ih, List.mem_cons, not_or, List.mem_map, not_exists, not_and,
        not_false_eq_true, true_and]
      constructor
      · rintro ⟨hnodup, hnew⟩
        exact ⟨⟨fun e' he' => (hnew e' he').1, hnodup⟩, fun e' he' => (hnew e' he').2⟩
      · rintro ⟨⟨hfirst, hnodup⟩, hnew⟩
        exact ⟨hnodup, fun e' he' => ⟨hfirst e' he', hnew e' he'⟩⟩

theorem duplicate_of_repeatedName? {seen : List String} {types : List EntityType} {name : String}
    (h : repeatedName? seen types = some name) :
    name ∈ seen ∧ name ∈ types.map (·.name) ∨ List.Duplicate name (types.map (·.name)) := by
  induction types generalizing seen with
  | nil => cases h
  | cons e types ih =>
    rw [repeatedName?] at h
    rw [List.map_cons, List.mem_cons, List.duplicate_cons_iff]
    by_cases he : e.name ∈ seen
    · rw [if_pos he] at h
      cases h
      exact .inl ⟨he, .inl rfl⟩
    · rw [if_neg he] at h
      rcases ih h with ⟨hseen, hmem⟩ | hagain
      · rcases List.mem_cons.1 hseen with rfl | hseen
        · exact .inr (.inl ⟨rfl, hmem⟩)
        · exact .inl ⟨hseen, .inr hmem⟩
      · exact .inr (.inr hagain)

theorem isSome_entity? {s : Schema} {name : String} :
    (s.entity? name).isSome = true ↔ name ∈ s.types.map (·.name) :=
  isSome_find?_name EntityType.name s.types name

theorem memberError?_eq_some {s : Schema} {e : EntityType} {error : SchemaError}
    (h : s.memberError? e = some error) :
    (∃ name ∈ e.duplicates, error = .duplicateMember e.name name) ∨
      e.duplicates = [] ∧ ∃ r ∈ e.relationships, r.target ∉ s.types.map (·.name) ∧
        error = .unknownTarget e.name r.name r.target := by
  unfold memberError? at h
  split at h
  · rename_i name names hduplicates
    cases h
    exact .inl ⟨name, hduplicates ▸ List.mem_cons_self, rfl⟩
  · rename_i hduplicates
    obtain ⟨r, hr, rfl⟩ := Option.map_eq_some_iff.1 h
    have htarget := List.find?_some hr
    rw [Option.isNone_iff_eq_none, ← Option.not_isSome_iff_eq_none, isSome_entity?] at htarget
    exact .inr ⟨hduplicates, r, List.mem_of_find?_eq_some hr, htarget, rfl⟩

/-- A name that is repeated is reported before the members of any type are looked at. -/
theorem build_eq_error {types : List EntityType} {error : SchemaError}
    (h : build types = .error error) :
    (∃ name, List.Duplicate name (types.map (·.name)) ∧ error = .duplicateType name) ∨
      (types.map (·.name)).Nodup ∧
        ∃ e ∈ types, (⟨types⟩ : Schema).memberError? e = some error := by
  unfold build at h
  dsimp only at h
  split at h
  · rename_i name hname
    cases h
    rcases duplicate_of_repeatedName? hname with ⟨hseen, -⟩ | hagain
    · cases hseen
    · exact .inl ⟨name, hagain, rfl⟩
  · rename_i hnames
    split at h
    · rename_i e he
      cases h
      exact .inr ⟨(repeatedName?_eq_none.1 hnames).1, List.exists_of_findSome?_eq_some he⟩
    · cases h

end Schema

/-- A schema that is built from types whose members are declared one after the other, attributes and
relationships in any order. -/
def Schema.Loadable (s : Schema) : Prop :=
  ∃ declarations : List (String × List Member),
    Schema.build (declarations.map fun t => EntityType.ofMembers t.1 t.2) = .ok s

/-- In a schema that is loaded, types have distinct names, and so have the members of a type. -/
theorem Schema.Loadable.nodup {s : Schema} (h : s.Loadable) :
    (s.types.map (·.name)).Nodup ∧ ∀ e ∈ s.types, e.memberNames.Nodup := by
  obtain ⟨declarations, hbuild⟩ := h
  obtain ⟨rfl, hnames, -⟩ := Schema.build_eq_ok.1 hbuild
  refine ⟨(Schema.repeatedName?_eq_none.1 hnames).1, ?_⟩
  intro e he
  obtain ⟨t, -, rfl⟩ := List.mem_map.1 he
  exact EntityType.nodup_memberNames_ofMembers t.1 t.2

/-! ## Documents -/

namespace SchemaDocument

/-- The names of all types that are declared. -/
def typeNames (d : SchemaDocument) : List String := d.types.map (·.name)

/-- Every value type has one of the nine tags. -/
def Tagged (d : SchemaDocument) : Prop :=
  ∀ t ∈ d.types, ∀ a ∈ t.attributes, ∃ v : ValueType, v.tag = a.valueType

/-- The names of a document fit together. -/
structure Valid (d : SchemaDocument) : Prop where
  tags : d.Tagged
  types : d.typeNames.Nodup
  members : ∀ t ∈ d.types, t.memberNames.Nodup
  targets : ∀ t ∈ d.types, ∀ r ∈ t.relationships, r.target ∈ d.typeNames

/-- An error that says what is wrong with a document: a value type without meaning; else a type that
is declared again; else a member that is, or a relationship that leads nowhere. -/
inductive Reported (d : SchemaDocument) : SchemaError → Prop
  | tag {t : TypeDocument} {a : AttributeDocument} (ht : t ∈ d.types) (ha : a ∈ t.attributes)
      (htag : ∀ v : ValueType, v.tag ≠ a.valueType) :
      Reported d (.unknownValueType t.name a.name a.valueType)
  | type {name : String} (htags : d.Tagged) (hname : List.Duplicate name d.typeNames) :
      Reported d (.duplicateType name)
  | member {t : TypeDocument} {name : String} (htags : d.Tagged) (htypes : d.typeNames.Nodup)
      (ht : t ∈ d.types) (hname : List.Duplicate name t.memberNames) :
      Reported d (.duplicateMember t.name name)
  | target {t : TypeDocument} {r : RelationshipDocument} (htags : d.Tagged)
      (htypes : d.typeNames.Nodup) (ht : t ∈ d.types) (hr : r ∈ t.relationships)
      (htarget : r.target ∉ d.typeNames) : Reported d (.unknownTarget t.name r.name r.target)

/-- An attribute of a type that the document declares. -/
def DeclaresAttribute (d : SchemaDocument) (typeName : String) (a : Attribute) : Prop :=
  ∃ t ∈ d.types, t.name = typeName ∧ a.document ∈ t.attributes

/-- A relationship of a type that the document declares. -/
def DeclaresRelationship (d : SchemaDocument) (typeName : String) (r : Relationship) : Prop :=
  ∃ t ∈ d.types, t.name = typeName ∧ r.document ∈ t.relationships

variable {d : SchemaDocument} {s : Schema}

theorem Valid.not_reported (h : d.Valid) (error : SchemaError) : ¬ d.Reported error := by
  rintro (⟨ht, ha, htag⟩ | ⟨-, hname⟩ | ⟨-, -, ht, hname⟩ | ⟨-, -, ht, hr, htarget⟩)
  · obtain ⟨v, hv⟩ := h.tags _ ht _ ha
    exact htag v hv
  · exact hname.not_nodup h.types
  · exact hname.not_nodup (h.members _ ht)
  · exact htarget (h.targets _ ht _ hr)

/-- The types of a document, each with the declaration it is built from. -/
theorem exists_types (h : d.toSchema = .ok s) :
    List.Forall₂ (fun t e => TypeDocument.toEntity t = .ok e) d.types s.types ∧
      (s.types.map (·.name)).Nodup ∧ ∀ e ∈ s.types, s.memberError? e = none := by
  unfold toSchema at h
  obtain ⟨types, htypes, hbuild⟩ := bind_eq_ok.1 h
  obtain ⟨rfl, hnames, hmembers⟩ := Schema.build_eq_ok.1 hbuild
  exact ⟨mapM_eq_ok.1 htypes, (Schema.repeatedName?_eq_none.1 hnames).1, hmembers⟩

theorem tagged_of_forall₂ {types : List EntityType}
    (h : List.Forall₂ (fun t e => TypeDocument.toEntity t = .ok e) d.types types) : d.Tagged := by
  intro t ht a ha
  obtain ⟨e, -, he⟩ := exists_mem_of_forall₂ h ht
  obtain ⟨attributes, hattributes, -⟩ := TypeDocument.toEntity_eq_ok.1 he
  rw [← hattributes] at ha
  obtain ⟨found, -, rfl⟩ := List.mem_map.1 ha
  exact ⟨found.valueType, rfl⟩

theorem typeNames_of_forall₂ {types : List EntityType}
    (h : List.Forall₂ (fun t e => TypeDocument.toEntity t = .ok e) d.types types) :
    types.map (·.name) = d.typeNames := by
  rw [typeNames, ← List.forall₂_eq_eq_eq, List.forall₂_map_left_iff, List.forall₂_map_right_iff]
  exact h.flip.imp fun _ _ he => TypeDocument.name_toEntity he

/-- A schema has the document it is loaded from, all of it and nothing else. -/
theorem document_toSchema (h : d.toSchema = .ok s) :
    d.Valid ∧ s.document = d ∧ ∀ e ∈ s.types, e.duplicates = [] := by
  obtain ⟨htypes, hnames, hmembers⟩ := exists_types h
  have htypeNames := typeNames_of_forall₂ htypes
  have hduplicates : ∀ e ∈ s.types, e.duplicates = [] :=
    fun e he => (Schema.memberError?_eq_none.1 (hmembers e he)).1
  have hnodup : ∀ t ∈ d.types, t.memberNames.Nodup := by
    intro t ht
    obtain ⟨e, he, hentity⟩ := exists_mem_of_forall₂ htypes ht
    exact (TypeDocument.duplicates_toEntity_eq_nil hentity).1 (hduplicates e he)
  have hdocument : s.document = d := by
    obtain ⟨declared⟩ := d
    rw [Schema.document, SchemaDocument.mk.injEq, ← List.forall₂_eq_eq_eq,
      List.forall₂_map_left_iff]
    exact ((List.forall₂_and_left _ _).2 ⟨hduplicates, htypes.flip⟩).imp
      fun _ _ ⟨hnone, hentity⟩ => TypeDocument.document_toEntity hentity
        ((TypeDocument.duplicates_toEntity_eq_nil hentity).1 hnone)
  refine ⟨⟨tagged_of_forall₂ htypes, htypeNames ▸ hnames, hnodup, ?_⟩, hdocument, hduplicates⟩
  intro t ht r hr
  rw [← hdocument] at ht
  obtain ⟨e, he, rfl⟩ := List.mem_map.1 ht
  obtain ⟨found, hfound, rfl⟩ := List.mem_map.1 hr
  have htarget := (Schema.memberError?_eq_none.1 (hmembers e he)).2 found hfound
  rw [Schema.isSome_entity?, htypeNames] at htarget
  exact htarget

theorem reported_of_toSchema {error : SchemaError} (h : d.toSchema = .error error) :
    d.Reported error := by
  unfold toSchema at h
  rcases bind_eq_error.1 h with htypes | ⟨types, htypes, hbuild⟩
  · obtain ⟨t, ht, hentity⟩ := exists_mem_of_mapM_eq_error htypes
    unfold TypeDocument.toEntity at hentity
    rcases bind_eq_error.1 hentity with hattributes | ⟨_, -, hpure⟩
    · obtain ⟨a, ha, hmember⟩ := exists_mem_of_mapM_eq_error hattributes
      obtain ⟨htag, rfl⟩ := AttributeDocument.toMember_eq_error hmember
      exact .tag ht ha htag
    · cases hpure
  · rw [mapM_eq_ok] at htypes
    have htags := tagged_of_forall₂ htypes
    have htypeNames := typeNames_of_forall₂ htypes
    rcases Schema.build_eq_error hbuild with ⟨name, hname, rfl⟩ | ⟨hnames, e, he, hmember⟩
    · exact .type htags (htypeNames ▸ hname)
    · obtain ⟨t, ht, hentity⟩ := exists_mem_of_forall₂ htypes.flip he
      rw [htypeNames] at hnames
      rcases Schema.memberError?_eq_some hmember with
        ⟨name, hname, rfl⟩ | ⟨hnone, r, hr, htarget, rfl⟩
      · rw [TypeDocument.name_toEntity hentity]
        exact .member htags hnames ht ((TypeDocument.mem_duplicates_toEntity hentity).1 hname)
      · have hdocument := TypeDocument.document_toEntity hentity
          ((TypeDocument.duplicates_toEntity_eq_nil hentity).1 hnone)
        rw [TypeDocument.name_toEntity hentity]
        refine .target (r := r.document) htags hnames ht ?_ (htypeNames ▸ htarget)
        rw [← hdocument]
        exact List.mem_map_of_mem hr

/-- What a document loads as can be loaded by declaring its members one after the other. -/
theorem loadable_of_toSchema (h : d.toSchema = .ok s) : s.Loadable := by
  unfold toSchema at h
  obtain ⟨types, htypes, hbuild⟩ := bind_eq_ok.1 h
  rw [mapM_eq_ok] at htypes
  have hdeclared : types ∈ Set.range (List.map fun t : String × List Member =>
      EntityType.ofMembers t.1 t.2) := by
    rw [Set.range_list_map]
    intro e he
    obtain ⟨t, -, hentity⟩ := exists_mem_of_forall₂ htypes.flip he
    obtain ⟨attributes, -, rfl⟩ := TypeDocument.toEntity_eq_ok.1 hentity
    exact ⟨(t.name, _), rfl⟩
  obtain ⟨declarations, rfl⟩ := hdeclared
  exact ⟨declarations, hbuild⟩

/-! ## Look-ups in a schema that is loaded -/

/-- A member is found under the name with which the document declares it, and no other one is. -/
theorem find?_toSchema_iff {α β : Type} (k : MemberKind α) {declared : TypeDocument → List β}
    {document : α → β} (hdeclared : ∀ e : EntityType, declared e.document =
      (k.members e).map document) (hinjective : Function.Injective document)
    (hdistinct : ∀ e : EntityType, e.memberNames.Nodup → ((k.members e).map k.name).Nodup)
    (h : d.toSchema = .ok s) {typeName name : String} {a : α} :
    k.find? ⟨s, []⟩ typeName name = some a ↔
      (∃ t ∈ d.types, t.name = typeName ∧ document a ∈ declared t) ∧ k.name a = name := by
  obtain ⟨hnames, hmembers⟩ := (loadable_of_toSchema h).nodup
  obtain ⟨-, rfl, -⟩ := document_toSchema h
  have hfound : k.find? ⟨s, []⟩ typeName name = some a ↔
      ∃ e, s.entity? typeName = some e ∧ (k.members e).find? (k.name · = name) = some a := by
    unfold MemberKind.find?
    rw [if_neg List.not_mem_nil, Option.bind_eq_some_iff]
    rfl
  rw [hfound]
  constructor
  · rintro ⟨e, he, ha⟩
    obtain ⟨hmem, rfl⟩ := (find?_name_iff hnames).1 he
    obtain ⟨hmember, rfl⟩ := (find?_name_iff (hdistinct e (hmembers e hmem))).1 ha
    refine ⟨⟨e.document, List.mem_map_of_mem hmem, rfl, ?_⟩, rfl⟩
    rw [hdeclared]
    exact List.mem_map_of_mem hmember
  · rintro ⟨⟨_, ht, rfl, ha⟩, rfl⟩
    obtain ⟨e, hmem, rfl⟩ := List.mem_map.1 ht
    rw [hdeclared, List.mem_map_of_injective hinjective] at ha
    exact ⟨e, (find?_name_iff hnames).2 ⟨hmem, rfl⟩,
      (find?_name_iff (hdistinct e (hmembers e hmem))).2 ⟨ha, rfl⟩⟩

theorem attribute?_toSchema_iff (h : d.toSchema = .ok s) {typeName name : String}
    {a : Attribute} :
    (Catalog.mk s []).attribute? typeName name = some a ↔
      d.DeclaresAttribute typeName a ∧ a.name = name :=
  find?_toSchema_iff .attributes (fun _ => rfl) Attribute.document_injective
    (fun _ hnodup => (List.nodup_append.1 hnodup).1) h

theorem relationship?_toSchema_iff (h : d.toSchema = .ok s) {typeName name : String}
    {r : Relationship} :
    (Catalog.mk s []).relationship? typeName name = some r ↔
      d.DeclaresRelationship typeName r ∧ r.name = name :=
  find?_toSchema_iff .relationships (fun _ => rfl) Relationship.document_injective
    (fun _ hnodup => (List.nodup_append.1 hnodup).2.1) h

/-- What a document loads as: a schema exactly if it is valid, with the members that it declares and
no other ones; and otherwise an error of the first check that fails. -/
theorem toSchema_exact (d : SchemaDocument) :
    ((∃ s, d.toSchema = .ok s) ↔ d.Valid) ∧
      (∀ s, d.toSchema = .ok s → s.document = d ∧ (∀ e ∈ s.types, e.duplicates = []) ∧
        ∀ typeName name,
          (∀ a, (Catalog.mk s []).attribute? typeName name = some a ↔
            d.DeclaresAttribute typeName a ∧ a.name = name) ∧
          ∀ r, (Catalog.mk s []).relationship? typeName name = some r ↔
            d.DeclaresRelationship typeName r ∧ r.name = name) ∧
      ∀ error, d.toSchema = .error error → d.Reported error := by
  refine ⟨⟨?_, ?_⟩, ?_, fun error => reported_of_toSchema⟩
  · rintro ⟨s, h⟩
    exact (document_toSchema h).1
  · intro hvalid
    cases hresult : d.toSchema with
    | ok s => exact ⟨s, rfl⟩
    | error error => exact absurd (reported_of_toSchema hresult) (hvalid.not_reported error)
  · intro s h
    obtain ⟨-, hdocument, hduplicates⟩ := document_toSchema h
    exact ⟨hdocument, hduplicates, fun typeName name =>
      ⟨fun a => attribute?_toSchema_iff h, fun r => relationship?_toSchema_iff h⟩⟩

end SchemaDocument

/-- A name stands for at most one member of a type, whatever is hidden. -/
theorem Catalog.attribute?_eq_none_or_relationship?_eq_none {c : Catalog}
    (h : c.schema.Loadable) (typeName name : String) :
    c.attribute? typeName name = none ∨ c.relationship? typeName name = none := by
  by_contra hboth
  rw [not_or, ← ne_eq, ← ne_eq, Option.ne_none_iff_exists', Option.ne_none_iff_exists'] at hboth
  obtain ⟨⟨a, ha⟩, r, hr⟩ := hboth
  obtain ⟨e, he, ha⟩ := attribute?_eq_some ha
  obtain ⟨e', he', hr⟩ := relationship?_eq_some hr
  cases he.symm.trans he'
  have hmembers := h.nodup.2 e (List.mem_of_find?_eq_some he)
  have hattribute := (isSome_find?_name Attribute.name e.attributes name).1
    (Option.isSome_of_eq_some ha)
  have hrelationship := (isSome_find?_name Relationship.name e.relationships name).1
    (Option.isSome_of_eq_some hr)
  exact (List.nodup_append.1 hmembers).2.2 name hattribute name hrelationship rfl

/-- Persons, who may have a name and a manager. -/
def staffDocument : SchemaDocument :=
  ⟨[⟨"Person", [⟨"name", "string", true⟩, ⟨"age", "integer", false⟩],
    [⟨"manager", "Person", .one⟩]⟩]⟩

/-- Persons declared twice, with a value type that does not exist the second time. -/
def mistypedDocument : SchemaDocument :=
  ⟨staffDocument.types ++ [⟨"Person", [⟨"age", "number", false⟩], []⟩]⟩

theorem staffDocument_exact :
    staffDocument.Valid ∧
      mistypedDocument.Reported (.unknownValueType "Person" "age" "number") :=
  ⟨(SchemaDocument.toSchema_exact staffDocument).1.1 ⟨_, rfl⟩,
    (SchemaDocument.toSchema_exact mistypedDocument).2.2 _ rfl⟩

end Criteria
