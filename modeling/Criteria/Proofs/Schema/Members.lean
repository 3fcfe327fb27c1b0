import Criteria.Schema.Entity
import Mathlib

/-! # Members declared one after the other

What a type knows after a list of declarations: a name stands for one member at most
(`EntityType.nodup_memberNames_ofMembers`), it is noted as a duplicate exactly if it is declared
more than once (`EntityType.mem_duplicates_ofMembers`), and where all names are distinct the type
lists the declarations as they stand (`EntityType.ofMembers_of_nodup`).
-/

set_option autoImplicit false

namespace Criteria

/-- Among values of distinct names, a look-up finds the value of the name and no other one. -/
theorem find?_name_iff {α : Type} {nameOf : α → String} {xs : List α}
    (hnames : (xs.map nameOf).Nodup) {name : String} {x : α} :
    xs.find? (nameOf · = name) = some x ↔ x ∈ xs ∧ nameOf x = name := by
  constructor
  · intro h
    have hname := List.find?_some h
    exact ⟨List.mem_of_find?_eq_some h, of_decide_eq_true hname⟩
  · rintro ⟨hmem, rfl⟩
    have hfound : (xs.find? (nameOf · = nameOf x)).isSome = true :=
      List.find?_isSome.2 ⟨x, hmem, decide_eq_true rfl⟩
    obtain ⟨y, hy⟩ := Option.isSome_iff_exists.1 hfound
    have hname := List.find?_some hy
    rw [hy, List.inj_on_of_nodup_map hnames (List.mem_of_find?_eq_some hy) hmem
      (of_decide_eq_true hname)]

/-- A look-up finds a value exactly of the names that are there. -/
theorem isSome_find?_name {α : Type} (nameOf : α → String) (xs : List α) (name : String) :
    (xs.find? (nameOf · = name)).isSome = true ↔ name ∈ xs.map nameOf := by
  rw [List.find?_isSome, List.mem_map]
  exact exists_congr fun x => and_congr_right fun _ => decide_eq_true_iff

namespace Member

/-- The attribute, if the member is one. -/
def attribute? : Member → Option Attribute
  | ofAttribute a => some a
  | ofRelationship _ => none

/-- The relationship, if the member is one. -/
def relationship? : Member → Option Relationship
  | ofAttribute _ => none
  | ofRelationship r => some r

end Member

namespace EntityType

/-- The names of all members, those of attributes in front. -/
def memberNames (e : EntityType) : List String :=
  e.attributes.map (·.name) ++ e.relationships.map (·.name)

variable {e : EntityType} {m : Member} {name : String}

theorem declares_iff : e.declares name = true ↔ name ∈ e.memberNames := by
  rw [declares, Bool.or_eq_true, memberNames, List.mem_append]
  exact or_congr (isSome_find?_name Attribute.name _ _) (isSome_find?_name Relationship.name _ _)

/-! ## One declaration -/

theorem declare_again (h : m.name ∈ e.memberNames) :
    e.declare m = { e with duplicates := e.duplicates ++ [m.name] } := by
  unfold declare
  rw [if_pos (declares_iff.2 h)]

theorem duplicates_declare_new (h : m.name ∉ e.memberNames) :
    (e.declare m).duplicates = e.duplicates := by
  unfold declare
  rw [if_neg (declares_iff.not.2 h)]
  cases m <;> rfl

/-- A new member adds its name to those that are there, behind those of its own kind. -/
theorem memberNames_declare_new (h : m.name ∉ e.memberNames) :
    (e.declare m).memberNames.Perm (m.name :: e.memberNames) := by
  unfold declare
  rw [if_neg (declares_iff.not.2 h)]
  cases m with
  | ofAttribute a =>
    have hnames : memberNames { e with attributes := e.attributes ++ [a] } =
        e.attributes.map (·.name) ++ a.name :: e.relationships.map (·.name) := by
      simp [memberNames]
    show (memberNames { e with attributes := e.attributes ++ [a] }).Perm _
    rw [hnames]
    exact List.perm_middle
  | ofRelationship r =>
    have hnames : memberNames { e with relationships := e.relationships ++ [r] } =
        e.memberNames ++ [r.name] := by
      simp [memberNames]
    show (memberNames { e with relationships := e.relationships ++ [r] }).Perm _
    rw [hnames]
    exact List.perm_append_singleton _ _

theorem mem_memberNames_declare :
    name ∈ (e.declare m).memberNames ↔ name ∈ e.memberNames ∨ name = m.name := by
  by_cases h : m.name ∈ e.memberNames
  · rw [declare_again h]
    exact ⟨.inl, fun hname => hname.elim id fun heq => heq ▸ h⟩
  · rw [(memberNames_declare_new h).mem_iff, List.mem_cons, or_comm]

/-- No declaration makes a name stand for two members. -/
theorem nodup_memberNames_declare (h : e.memberNames.Nodup) (m : Member) :
    (e.declare m).memberNames.Nodup := by
  by_cases hm : m.name ∈ e.memberNames
  · rw [declare_again hm]
    exact h
  · rw [(memberNames_declare_new hm).nodup_iff]
    exact List.nodup_cons.2 ⟨hm, h⟩

/-! ## All declarations -/

theorem mem_duplicates_foldl {members : List Member} :
    name ∈ (members.foldl declare e).duplicates ↔
      name ∈ e.duplicates ∨ name ∈ e.memberNames ∧ name ∈ members.map Member.name ∨
        List.Duplicate name (members.map Member.name) := by
  induction members generalizing e with
  | nil => simp [List.not_duplicate_nil]
  | cons m members ih =>
    rw [List.foldl_cons, ih, mem_memberNames_declare, List.map_cons, List.mem_cons,
      List.duplicate_cons_iff]
    -- The first name is a duplicate at once, or it makes a later one of its name a duplicate.
    by_cases hm : m.name ∈ e.memberNames
    · rw [declare_again hm, List.mem_append, List.mem_singleton]
      by_cases hname : name = m.name
      · subst hname
        simp [hm]
      · simp [hname, Ne.symm hname]
    · rw [duplicates_declare_new hm]
      by_cases hname : name = m.name
      · subst hname
        simp [hm]
      · simp [hname, Ne.symm hname]

/-- The duplicates of a type are the names that are declared more than once. -/
theorem mem_duplicates_ofMembers {typeName : String} {members : List Member} :
    name ∈ (ofMembers typeName members).duplicates ↔
      List.Duplicate name (members.map Member.name) := by
  rw [ofMembers, mem_duplicates_foldl]
  simp [empty, memberNames]

/-- In whatever order members are declared, attributes and relationships have distinct names. -/
theorem nodup_memberNames_ofMembers (typeName : String) (members : List Member) :
    (ofMembers typeName members).memberNames.Nodup := by
  have hfold : ∀ e : EntityType, e.memberNames.Nodup →
      (members.foldl declare e).memberNames.Nodup := by
    induction members with
    | nil => exact fun _ h => h
    | cons m members ih => exact fun e h => ih _ (nodup_memberNames_declare h m)
  exact hfold (empty typeName) List.nodup_nil

@[simp] theorem name_ofMembers (typeName : String) (members : List Member) :
    (ofMembers typeName members).name = typeName := by
  have hfold : ∀ e : EntityType, (members.foldl declare e).name = e.name := by
    induction members with
    | nil => exact fun _ => rfl
    | cons m members ih => exact fun e => (ih _).trans (name_declare e m)
  exact hfold (empty typeName)

/-- New members of distinct names are listed behind those that are there. -/
theorem foldl_declare_new {members : List Member} (hnew : ∀ m ∈ members, m.name ∉ e.memberNames)
    (hdistinct : (members.map Member.name).Nodup) :
    members.foldl declare e =
      { e with
        attributes := e.attributes ++ members.filterMap Member.attribute?
        relationships := e.relationships ++ members.filterMap Member.relationship? } := by
  induction members generalizing e with
  | nil => simp
  | cons m members ih =>
    rw [List.map_cons, List.nodup_cons] at hdistinct
    have hm : m.name ∉ e.memberNames := hnew m List.mem_cons_self
    have hothers : ∀ other ∈ members, other.name ∉ (e.declare m).memberNames := by
      intro other hother hmem
      rcases mem_memberNames_declare.1 hmem with hold | hname
      · exact hnew other (List.mem_cons_of_mem m hother) hold
      · exact hdistinct.1 (List.mem_map.2 ⟨other, hother, hname⟩)
    rw [List.foldl_cons, ih hothers hdistinct.2]
    unfold declare
    rw [if_neg (declares_iff.not.2 hm)]
    cases m with
    | ofAttribute a => simp [List.filterMap_cons, Member.attribute?, Member.relationship?]
    | ofRelationship r => simp [List.filterMap_cons, Member.attribute?, Member.relationship?]

/-- Where all names are distinct, every declaration stands. -/
theorem ofMembers_of_nodup {typeName : String} {attributes : List Attribute}
    {relationships : List Relationship}
    (h : (attributes.map (·.name) ++ relationships.map (·.name)).Nodup) :
    ofMembers typeName (attributes.map .ofAttribute ++ relationships.map .ofRelationship) =
      ⟨typeName, attributes, relationships, []⟩ := by
  rw [ofMembers, foldl_declare_new]
  · simp [empty, List.filterMap_map, Function.comp_def, Member.attribute?, Member.relationship?]
  · intro m _ hmem
    simp [memberNames, empty] at hmem
  · simpa [Function.comp_def, Member.name] using h

end EntityType

end Criteria
