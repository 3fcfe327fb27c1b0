import Criteria.Proofs.Occurrences
import Criteria.Proofs.Schema.Members
import Criteria.Proofs.Schema.Resolution

/-! # First declarations

What becomes of every declaration of a type, whatever the order in which attributes and
relationships are declared: the first one of its name stands as a member, and any other one is
noted under its name (`EntityType.ofMembers_eq`). So a look-up finds the first declaration of a
name, and nothing that is declared gets lost (`EntityType.ofMembers_accounts`).
-/

set_option autoImplicit false

namespace Criteria

/-- Where no two elements have the same key, a look-up among their images finds the image of the
element that a look-up among themselves finds. -/
theorem find?_filterMap_of_nodup {α β κ : Type} [DecidableEq κ] {key : α → κ} {keyOf : β → κ}
    {f : α → Option β} (hf : ∀ x y, f x = some y → keyOf y = key x) {xs : List α}
    (h : (xs.map key).Nodup) (k : κ) :
    (xs.filterMap f).find? (keyOf · = k) = (xs.find? (key · = k)).bind f := by
  induction xs with
  | nil => rfl
  | cons x xs ih =>
    rw [List.map_cons, List.nodup_cons] at h
    by_cases hk : key x = k
    · rw [List.find?_cons_of_pos (by simpa using hk), Option.bind_some, List.filterMap_cons]
      cases hx : f x with
      | none =>
        -- No other element has the key, so nothing else is found either.
        refine List.find?_eq_none.2 fun y hy => ?_
        obtain ⟨x', hx', hy⟩ := List.mem_filterMap.1 hy
        have hne : key x' ≠ k := fun heq => h.1 (List.mem_map.2 ⟨x', hx', heq.trans hk.symm⟩)
        simpa [hf x' y hy] using hne
      | some y => exact List.find?_cons_of_pos (by simpa [hf x y hx] using hk)
    · rw [List.find?_cons_of_neg (by simpa using hk), ← ih h.2, List.filterMap_cons]
      cases hx : f x with
      | none => rfl
      | some y => exact List.find?_cons_of_neg (by simpa [hf x y hx] using hk)

namespace Member

theorem attribute?_eq_some_iff {m : Member} {a : Attribute} :
    m.attribute? = some a ↔ m = .ofAttribute a := by
  cases m <;> simp [attribute?]

theorem relationship?_eq_some_iff {m : Member} {r : Relationship} :
    m.relationship? = some r ↔ m = .ofRelationship r := by
  cases m <;> simp [relationship?]

theorem name_of_attribute? {m : Member} {a : Attribute} (h : m.attribute? = some a) :
    a.name = m.name := by
  rw [attribute?_eq_some_iff.1 h]
  rfl

theorem name_of_relationship? {m : Member} {r : Relationship} (h : m.relationship? = some r) :
    r.name = m.name := by
  rw [relationship?_eq_some_iff.1 h]
  rfl

/-- Each member is of one kind. -/
theorem length_attribute?_add_length_relationship? (members : List Member) :
    (members.filterMap Member.attribute?).length +
      (members.filterMap Member.relationship?).length = members.length := by
  induction members with
  | nil => rfl
  | cons m members ih =>
    cases m <;> simp [List.filterMap_cons, Member.attribute?, Member.relationship?] <;> omega

end Member

namespace EntityType

/-! ## One declaration more -/

theorem declare_new {e : EntityType} {m : Member} (h : m.name ∉ e.memberNames) :
    e.declare m =
      { e with
        attributes := e.attributes ++ m.attribute?.toList
        relationships := e.relationships ++ m.relationship?.toList } := by
  unfold declare
  rw [if_neg (declares_iff.not.2 h)]
  cases m <;> simp [Member.attribute?, Member.relationship?]

theorem ofMembers_append_singleton (typeName : String) (members : List Member) (m : Member) :
    ofMembers typeName (members ++ [m]) = (ofMembers typeName members).declare m := by
  rw [ofMembers, List.foldl_append]
  rfl

theorem mem_memberNames_ofMembers {typeName name : String} {members : List Member} :
    name ∈ (ofMembers typeName members).memberNames ↔ name ∈ members.map Member.name := by
  induction members using List.reverseRecOn with
  | nil => exact Iff.rfl
  | append_singleton members m ih =>
    rw [ofMembers_append_singleton, mem_memberNames_declare, ih, List.map_append, List.mem_append,
      List.map_singleton, List.mem_singleton]

/-! ## All declarations -/

/-- A type has the first declaration of every name, and the names of all others. -/
theorem ofMembers_eq (typeName : String) (members : List Member) :
    ofMembers typeName members =
      { name := typeName
        attributes := (firsts Member.name members).filterMap Member.attribute?
        relationships := (firsts Member.name members).filterMap Member.relationship?
        duplicates := (repeats Member.name members).map Member.name } := by
  induction members using List.reverseRecOn with
  | nil => rfl
  | append_singleton members m ih =>
    rw [ofMembers_append_singleton, firsts_append_singleton, repeats_append_singleton]
    by_cases hm : m.name ∈ members.map Member.name
    · rw [if_pos hm, if_pos hm, declare_again (mem_memberNames_ofMembers.2 hm), ih,
        List.map_append, List.map_singleton]
    · rw [if_neg hm, if_neg hm, declare_new (mem_memberNames_ofMembers.not.2 hm), ih,
        List.filterMap_append, List.filterMap_append]
      cases m <;> rfl

/-- The declarations of a type and what the type knows: each name stands for its first declaration,
which is of one kind, and the type lists these declarations in their order and notes the name of
every other one. -/
structure Accounts (e : EntityType) (members : List Member) : Prop where
  disjoint : ∀ name, ¬((e.attribute? name).isSome ∧ (e.relationship? name).isSome)
  attributeFound : ∀ name a, e.attribute? name = some a ↔
    members.find? (·.name = name) = some (.ofAttribute a)
  relationshipFound : ∀ name r, e.relationship? name = some r ↔
    members.find? (·.name = name) = some (.ofRelationship r)
  attributes : e.attributes = (firsts Member.name members).filterMap Member.attribute?
  relationships : e.relationships = (firsts Member.name members).filterMap Member.relationship?
  duplicates : e.duplicates = (repeats Member.name members).map Member.name
  length : e.attributes.length + e.relationships.length + e.duplicates.length = members.length

section

variable (typeName : String) (members : List Member)

/-- What is found under a name is what the first declaration of the name is of the kind. -/
theorem find?_ofMembers {α : Type} (k : MemberKind α) {ofMember? : Member → Option α}
    (hname : ∀ m a, ofMember? m = some a → k.name a = m.name)
    (hmembers : k.members (ofMembers typeName members) =
      (firsts Member.name members).filterMap ofMember?) (name : String) :
    (k.members (ofMembers typeName members)).find? (k.name · = name) =
      (members.find? (·.name = name)).bind ofMember? := by
  rw [hmembers, find?_filterMap_of_nodup hname (nodup_map_firsts members), find?_firsts]

theorem attribute?_ofMembers (name : String) :
    (ofMembers typeName members).attribute? name =
      (members.find? (·.name = name)).bind Member.attribute? := by
  refine find?_ofMembers typeName members .attributes (fun _ _ => Member.name_of_attribute?) ?_ name
  rw [ofMembers_eq]
  rfl

theorem relationship?_ofMembers (name : String) :
    (ofMembers typeName members).relationship? name =
      (members.find? (·.name = name)).bind Member.relationship? := by
  refine find?_ofMembers typeName members .relationships
    (fun _ _ => Member.name_of_relationship?) ?_ name
  rw [ofMembers_eq]
  rfl

theorem attribute?_ofMembers_iff {name : String} {a : Attribute} :
    (ofMembers typeName members).attribute? name = some a ↔
      members.find? (·.name = name) = some (.ofAttribute a) := by
  rw [attribute?_ofMembers, Option.bind_eq_some_iff]
  simp [Member.attribute?_eq_some_iff]

theorem relationship?_ofMembers_iff {name : String} {r : Relationship} :
    (ofMembers typeName members).relationship? name = some r ↔
      members.find? (·.name = name) = some (.ofRelationship r) := by
  rw [relationship?_ofMembers, Option.bind_eq_some_iff]
  simp [Member.relationship?_eq_some_iff]

/-- Whatever is declared in whatever order, the type accounts for every declaration. -/
theorem ofMembers_accounts : (ofMembers typeName members).Accounts members where
  disjoint name := by
    rintro ⟨hattribute, hrelationship⟩
    obtain ⟨a, ha⟩ := Option.isSome_iff_exists.1 hattribute
    obtain ⟨r, hr⟩ := Option.isSome_iff_exists.1 hrelationship
    -- A first declaration of both kinds.
    have hfound := (attribute?_ofMembers_iff typeName members).1 ha
    rw [(relationship?_ofMembers_iff typeName members).1 hr] at hfound
    cases hfound
  attributeFound _ _ := attribute?_ofMembers_iff typeName members
  relationshipFound _ _ := relationship?_ofMembers_iff typeName members
  attributes := by rw [ofMembers_eq]
  relationships := by rw [ofMembers_eq]
  duplicates := by rw [ofMembers_eq]
  length := by
    have hkinds := Member.length_attribute?_add_length_relationship? (firsts Member.name members)
    have hall : (firsts Member.name members).length + (repeats Member.name members).length =
        members.length := length_firsts_add_length_repeats members
    rw [ofMembers_eq, List.length_map]
    dsimp only
    omega

end

/-- A name that is declared three times stands for the first declaration. -/
example : ofMembers "Person" [.ofAttribute ⟨"age", .integer, false⟩,
      .ofAttribute ⟨"age", .string, false⟩, .ofRelationship ⟨"age", "Person", .one⟩] =
    ⟨"Person", [⟨"age", .integer, false⟩], [], ["age", "age"]⟩ := by
  decide

end EntityType

end Criteria
