import Criteria.Proofs.Runs
import Criteria.Proofs.Schema.Resolution
import Criteria.Schema.Document

/-! # Schemas without hidden members

Members can be hidden by a catalog or be left out of its schema. The schema without hidden members
is what a document declares that leaves them out (`SchemaDocument.toSchema_without`), so it loads if
the schema with all members does. A name that is looked up means the same either way
(`Catalog.prune_follows`); where it means nothing, the names that are listed as valid differ.
-/

set_option autoImplicit false

namespace Criteria

/-- The type without the members of the given names. -/
def EntityType.without (hidden : List String) (e : EntityType) : EntityType where
  name := e.name
  attributes := e.attributes.filter (·.name ∉ hidden)
  relationships := e.relationships.filter (·.name ∉ hidden)
  duplicates := e.duplicates.filter (· ∉ hidden)

/-- The schema without the members of the given names, whatever their type is. -/
def Schema.without (hidden : List String) (s : Schema) : Schema :=
  ⟨s.types.map (EntityType.without hidden)⟩

/-- The catalog that hides nothing, over the schema without the hidden members. -/
def Catalog.prune (c : Catalog) : Catalog := ⟨c.schema.without c.hidden, []⟩

/-! ## Types -/

/-- Among the members that are left, the one of a name is found unless it was hidden. -/
theorem find?_filter_name {α : Type} (nameOf : α → String) (members : List α)
    (hidden : List String) (name : String) :
    (members.filter (nameOf · ∉ hidden)).find? (nameOf · = name) =
      if name ∈ hidden then none else members.find? (nameOf · = name) := by
  rw [List.find?_filter]
  by_cases hname : name ∈ hidden
  · rw [if_pos hname, List.find?_eq_none]
    intro m _ hm
    simp only [decide_not, Bool.not_eq_eq_eq_not, Bool.not_true, decide_eq_false_iff_not,
      decide_eq_true_eq] at hm
    exact hm.1 (hm.2 ▸ hname)
  · rw [if_neg hname]
    congr 1
    funext m
    by_cases hm : nameOf m = name
    · simp [hm, hname]
    · simp [hm]

namespace EntityType

theorem attribute?_without (hidden : List String) (e : EntityType) (name : String) :
    (e.without hidden).attribute? name =
      if name ∈ hidden then none else e.attribute? name :=
  find?_filter_name Attribute.name e.attributes hidden name

theorem relationship?_without (hidden : List String) (e : EntityType) (name : String) :
    (e.without hidden).relationship? name =
      if name ∈ hidden then none else e.relationship? name :=
  find?_filter_name Relationship.name e.relationships hidden name

/-- A member that is left is declared twice if it was declared twice before. -/
theorem declares_without {hidden : List String} (e : EntityType) {name : String}
    (h : name ∉ hidden) : (e.without hidden).declares name = e.declares name := by
  rw [declares, declares, attribute?_without, relationship?_without, if_neg h, if_neg h]

theorem declare_without {hidden : List String} (e : EntityType) {m : Member}
    (h : m.name ∉ hidden) : (e.without hidden).declare m = (e.declare m).without hidden := by
  unfold declare
  rw [declares_without e h]
  by_cases hdeclared : e.declares m.name = true
  · rw [if_pos hdeclared, if_pos hdeclared]
    simp [without, h]
  · rw [if_neg hdeclared, if_neg hdeclared]
    cases m with
    | ofAttribute a =>
      have ha : a.name ∉ hidden := h
      simp [without, ha]
    | ofRelationship r =>
      have hr : r.name ∉ hidden := h
      simp [without, hr]

theorem without_declare_hidden {hidden : List String} (e : EntityType) {m : Member}
    (h : m.name ∈ hidden) : (e.declare m).without hidden = e.without hidden := by
  unfold declare
  by_cases hdeclared : e.declares m.name = true
  · rw [if_pos hdeclared]
    simp [without, h]
  · rw [if_neg hdeclared]
    cases m with
    | ofAttribute a =>
      have ha : a.name ∈ hidden := h
      simp [without, ha]
    | ofRelationship r =>
      have hr : r.name ∈ hidden := h
      simp [without, hr]

/-- To remove members is to leave out their declarations. -/
theorem ofMembers_without (hidden : List String) (name : String) (members : List Member) :
    (ofMembers name members).without hidden =
      ofMembers name (members.filter (·.name ∉ hidden)) := by
  have hfold : ∀ e : EntityType, (members.foldl declare e).without hidden =
      (members.filter (·.name ∉ hidden)).foldl declare (e.without hidden) := by
    induction members with
    | nil => exact fun _ => rfl
    | cons m members ih =>
      intro e
      rw [List.foldl_cons, ih]
      by_cases hm : m.name ∈ hidden
      · rw [List.filter_cons_of_neg (by simpa using hm), without_declare_hidden e hm]
      · rw [List.filter_cons_of_pos (by simpa using hm), List.foldl_cons, declare_without e hm]
  exact hfold (empty name)

end EntityType

/-! ## Schemas -/

namespace Schema

theorem entity?_without (hidden : List String) (s : Schema) (name : String) :
    (s.without hidden).entity? name = (s.entity? name).map (EntityType.without hidden) := by
  unfold entity? without
  rw [List.find?_map]
  rfl

theorem repeatedName?_without (hidden : List String) (types : List EntityType)
    (seen : List String) :
    repeatedName? seen (types.map (EntityType.without hidden)) = repeatedName? seen types := by
  induction types generalizing seen with
  | nil => rfl
  | cons e types ih =>
    rw [List.map_cons, repeatedName?, repeatedName?, ih]
    rfl

theorem memberError?_eq_none {s : Schema} {e : EntityType} :
    s.memberError? e = none ↔
      e.duplicates = [] ∧ ∀ r ∈ e.relationships, (s.entity? r.target).isSome = true := by
  unfold memberError?
  cases e.duplicates with
  | nil => simp [Option.isSome_iff_ne_none]
  | cons name names => simp

theorem build_eq_ok {types : List EntityType} {s : Schema} :
    build types = .ok s ↔
      s = ⟨types⟩ ∧ repeatedName? [] types = none ∧
        ∀ e ∈ types, (⟨types⟩ : Schema).memberError? e = none := by
  unfold build
  dsimp only
  cases repeatedName? [] types with
  | some name => simp
  | none =>
    rw [← List.findSome?_eq_none_iff]
    cases types.findSome? (⟨types⟩ : Schema).memberError? with
    | some error => simp
    | none => simp [eq_comm]

/-- A schema that loads does so without the hidden members as well. -/
theorem build_without {types : List EntityType} {s : Schema} (hidden : List String)
    (h : build types = .ok s) :
    build (types.map (EntityType.without hidden)) = .ok (s.without hidden) := by
  obtain ⟨rfl, hnames, hmembers⟩ := build_eq_ok.1 h
  refine build_eq_ok.2 ⟨rfl, ?_, ?_⟩
  · rw [repeatedName?_without, hnames]
  · intro _ hmem
    obtain ⟨e, he, rfl⟩ := List.mem_map.1 hmem
    obtain ⟨hduplicates, htargets⟩ := memberError?_eq_none.1 (hmembers e he)
    refine memberError?_eq_none.2 ⟨?_, ?_⟩
    · show e.duplicates.filter _ = []
      rw [hduplicates]
      rfl
    · intro r hr
      have htarget := htargets r (List.mem_of_mem_filter hr)
      show ((Schema.without hidden ⟨types⟩).entity? r.target).isSome = true
      rw [entity?_without, Option.isSome_map]
      exact htarget

end Schema

/-! ## Documents -/

/-- The declaration of the type without the members of the given names. -/
def TypeDocument.without (hidden : List String) (t : TypeDocument) : TypeDocument where
  name := t.name
  attributes := t.attributes.filter (·.name ∉ hidden)
  relationships := t.relationships.filter (·.name ∉ hidden)

/-- The document without the members of the given names, whatever their type is. -/
def SchemaDocument.without (hidden : List String) (d : SchemaDocument) : SchemaDocument :=
  ⟨d.types.map (TypeDocument.without hidden)⟩

theorem AttributeDocument.name_toMember {typeName : String} {a : AttributeDocument} {m : Member}
    (h : a.toMember typeName = .ok m) : m.name = a.name := by
  unfold toMember at h
  split at h
  · cases h
    rfl
  · cases h

/-- Attributes that are left are declared as before. -/
theorem mapM_toMember_filter {typeName : String} {hidden : List String}
    {attributes : List AttributeDocument} {members : List Member}
    (h : attributes.mapM (AttributeDocument.toMember typeName) = .ok members) :
    (attributes.filter (·.name ∉ hidden)).mapM (AttributeDocument.toMember typeName) =
      .ok (members.filter (·.name ∉ hidden)) := by
  rw [mapM_eq_ok] at h ⊢
  induction h with
  | nil => exact .nil
  | @cons a m attributes members ha _ ih =>
    have hname := AttributeDocument.name_toMember ha
    by_cases hhidden : a.name ∈ hidden
    · rw [List.filter_cons_of_neg (by simpa using hhidden),
        List.filter_cons_of_neg (by simpa [hname] using hhidden)]
      exact ih
    · rw [List.filter_cons_of_pos (by simpa using hhidden),
        List.filter_cons_of_pos (by simpa [hname] using hhidden)]
      exact .cons ha ih

theorem TypeDocument.toEntity_without {t : TypeDocument} {e : EntityType} (hidden : List String)
    (h : t.toEntity = .ok e) : (t.without hidden).toEntity = .ok (e.without hidden) := by
  unfold toEntity at h ⊢
  obtain ⟨attributes, hattributes, h⟩ := bind_eq_ok.1 h
  cases h
  refine bind_eq_ok.2 ⟨_, mapM_toMember_filter hattributes, ?_⟩
  have hrelationships :
      (t.relationships.filter (·.name ∉ hidden)).map RelationshipDocument.toMember =
        (t.relationships.map RelationshipDocument.toMember).filter (·.name ∉ hidden) := by
    rw [List.filter_map]
    rfl
  rw [EntityType.ofMembers_without, List.filter_append, ← hrelationships]
  rfl

/-- A document without the hidden members declares the schema without them. -/
theorem SchemaDocument.toSchema_without {d : SchemaDocument} {s : Schema} (hidden : List String)
    (h : d.toSchema = .ok s) : (d.without hidden).toSchema = .ok (s.without hidden) := by
  unfold toSchema at h ⊢
  obtain ⟨types, htypes, hbuild⟩ := bind_eq_ok.1 h
  have hloaded := Schema.build_without hidden hbuild
  refine bind_eq_ok.2 ⟨types.map (EntityType.without hidden), ?_, hloaded⟩
  rw [mapM_eq_ok] at htypes ⊢
  exact List.forall₂_map_left_iff.2 (List.forall₂_map_right_iff.2
    (htypes.imp fun _ _ he => TypeDocument.toEntity_without hidden he))

/-! ## Lookups -/

/-- Why a name means nothing: for the same reason, but that the valid names of the second run are
those of the first which are not hidden. -/
inductive Unlists (hidden : List String) : Cause → Cause → Prop
  | same (cause : Cause) : Unlists hidden cause cause
  | attributes (name type : String) (valid : List String) :
      Unlists hidden (.rejected (.unknownAttribute name type valid))
        (.rejected (.unknownAttribute name type (valid.filter (· ∉ hidden))))
  | relationships (name type : String) (valid : List String) :
      Unlists hidden (.rejected (.unknownRelationship name type valid))
        (.rejected (.unknownRelationship name type (valid.filter (· ∉ hidden))))

/-- Two runs of which none stops before the other does. -/
def Difference.unlisting (hidden : List String) : Difference Cause where
  stops _ := False
  alike := Unlists hidden
  refl := .same

namespace Catalog

variable (c : Catalog)

theorem entity?_prune (typeName : String) :
    c.prune.entity? typeName = (c.entity? typeName).map (EntityType.without c.hidden) :=
  c.schema.entity?_without c.hidden typeName

end Catalog

/-- Over the pruned catalog, a look-up finds what it found before. -/
theorem MemberKind.find?_prune {α : Type} (k : MemberKind α) (c : Catalog)
    (hwithout : ∀ e : EntityType, k.members (e.without c.hidden) =
      (k.members e).filter (k.name · ∉ c.hidden)) (typeName name : String) :
    k.find? c.prune typeName name = k.find? c typeName name := by
  unfold find?
  have hshown : name ∉ c.prune.hidden := List.not_mem_nil
  rw [if_neg hshown, c.entity?_prune]
  cases c.entity? typeName with
  | none => simp
  | some e =>
    show (k.members (e.without c.hidden)).find? _ = _
    rw [hwithout]
    exact find?_filter_name k.name (k.members e) c.hidden name

/-- Only the lists of names show a difference. -/
theorem MemberKind.names_prune {α : Type} (k : MemberKind α) (c : Catalog)
    (hwithout : ∀ e : EntityType, k.members (e.without c.hidden) =
      (k.members e).filter (k.name · ∉ c.hidden)) (typeName : String) :
    k.names c.prune typeName = (k.names c typeName).filter (· ∉ c.hidden) := by
  unfold names
  rw [c.entity?_prune]
  cases c.entity? typeName with
  | none => rfl
  | some e =>
    show (k.members (e.without c.hidden)).map k.name = ((k.members e).map k.name).filter _
    rw [hwithout, List.filter_map]
    rfl

namespace Catalog

variable (c : Catalog)

theorem attribute?_prune (typeName name : String) :
    c.prune.attribute? typeName name = c.attribute? typeName name :=
  MemberKind.attributes.find?_prune c (fun _ => rfl) typeName name

theorem relationship?_prune (typeName name : String) :
    c.prune.relationship? typeName name = c.relationship? typeName name :=
  MemberKind.relationships.find?_prune c (fun _ => rfl) typeName name

theorem attributeNames_prune (typeName : String) :
    c.prune.attributeNames typeName = (c.attributeNames typeName).filter (· ∉ c.hidden) :=
  MemberKind.attributes.names_prune c (fun _ => rfl) typeName

theorem relationshipNames_prune (typeName : String) :
    c.prune.relationshipNames typeName =
      (c.relationshipNames typeName).filter (· ∉ c.hidden) :=
  MemberKind.relationships.names_prune c (fun _ => rfl) typeName

/-! ## Names looked up in both -/

theorem requireType_prune (typeName : String) :
    c.prune.requireType typeName =
      (c.requireType typeName).map (EntityType.without c.hidden) := by
  unfold requireType
  rw [entity?_prune]
  cases c.entity? typeName with
  | none => rfl
  | some e => rfl

/-- What is done with a type that has to exist is done with the type without hidden members. -/
theorem requireType_bind_follows {d : Difference Rejection} {α : Type} (typeName : String)
    {f g : EntityType → Except Rejection α}
    (next : ∀ e, Follows d (f e) (g (e.without c.hidden))) :
    Follows d (c.requireType typeName >>= f) (c.prune.requireType typeName >>= g) := by
  rw [requireType_prune]
  cases c.requireType typeName with
  | error r => exact .refl _
  | ok e => exact next e

theorem prune_follows : LookupsFollow (.unlisting c.hidden) c c.prune where
  root typeName := by
    unfold root
    rw [requireType_prune]
    cases c.requireType typeName with
    | error r => exact .refl _
    | ok e => exact .refl _
  navigate s name := by
    apply c.requireType_bind_follows
    intro e
    dsimp only [EntityType.without]
    rw [relationship?_prune, relationshipNames_prune]
    cases c.relationship? e.name name with
    | some r => exact .refl _
    | none => exact .error (.relationships name _ _)
  attributeRef s name := by
    apply c.requireType_bind_follows
    intro e
    dsimp only [EntityType.without]
    rw [attribute?_prune, attributeNames_prune]
    cases c.attribute? e.name name with
    | some a => exact .refl _
    | none => exact .error (.attributes name _ _)
  field s name := by
    apply c.requireType_bind_follows
    intro e
    dsimp only [EntityType.without]
    rw [attribute?_prune, relationship?_prune]
    exact .refl _

end Catalog

end Criteria
