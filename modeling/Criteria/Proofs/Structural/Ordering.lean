import Criteria.Proofs.Soundness
import Criteria.Structural.OrderBy

/-! # The keys of an ordering

Criteria for an ordering name attributes by empty objects, and relationships by objects with further
criteria (`Names`). The keys of the ordering are those of the attributes in the order in which they
stand (`orderBy_document_order`). An ordering that is put together piece by piece, where a piece may
be missing, is the same one (`mergedOrderBy_eq`). The direction is looked at where there is an
attribute to sort by, so one that is unknown gets past criteria that name none
(`orderBy_unknown_direction`).
-/

set_option autoImplicit false

namespace Criteria

/-! ## Places of criteria -/

/-- A key of nested objects: the keys that it stands below, the outermost first, and its name. -/
structure Place where
  above : List String
  name : String

/-- The attribute that a key stands for: the keys above lead to its type. -/
def Catalog.attributeAt? (c : Catalog) (rootType : String) (p : Place) : Option AttributePath :=
  (c.target? rootType p.above).bind fun type =>
    (c.attribute? type p.name).map fun a => ⟨rootType, p.above, a.name, a.valueType, a.nullable⟩

namespace Structural

mutual

/-- The keys with an empty object, in the order in which they stand in the document. -/
def leavesOfMembers (above : List String) : List (String × Json) → List Place
  | [] => []
  | (name, value) :: members => leavesOfValue above name value ++ leavesOfMembers above members
termination_by structural members => members

def leavesOfValue (above : List String) (name : String) : Json → List Place
  | .object members =>
    if members.isEmpty then [⟨above, name⟩] else leavesOfMembers (above ++ [name]) members
  | _ => []
termination_by structural value => value

end

/-! ## What criteria name -/

/-- The criteria name the attributes: an empty object stands for an attribute, and any object for a
relationship, with the criteria on its target. -/
inductive Names (c : Catalog) : Scope → List (String × Json) → List AttributeRef → Prop
  | nil {s : Scope} : Names c s [] []
  | attr {s : Scope} {name : String} {a : Attribute} {members : List (String × Json)}
      {as : List AttributeRef} (h : c.attribute? s.currentType name = some a)
      (tail : Names c s members as) :
      Names c s ((name, .object []) :: members) (s.reference a :: as)
  | relationship {s : Scope} {name : String} {r : Relationship}
      {below members : List (String × Json)} {as bs : List AttributeRef}
      (hattr : c.attribute? s.currentType name = none)
      (h : c.relationship? s.currentType name = some r)
      (inner : Names c (s.enter name r.target) below as) (tail : Names c s members bs) :
      Names c s ((name, .object below) :: members) (as ++ bs)

/-- The key sorts by the attribute, in the direction of the given name. -/
structure Sorts (direction : String) (a : AttributeRef) (k : SortKey) : Prop where
  path : k.path = a.path
  direction : Direction.ofName? direction = some k.direction

/-- The keys that sort by attributes in a direction are the attributes with that direction. -/
theorem eq_map_of_sorts {d : Direction} {as : List AttributeRef} {keys : List SortKey}
    (h : List.Forall₂ (Sorts d.name) as keys) : keys = (as.map (·.path)).map (⟨·, d⟩) := by
  induction h with
  | nil => rfl
  | @cons a k as keys hsorts tail ih =>
    obtain ⟨path, d'⟩ := k
    obtain rfl : path = a.path := hsorts.path
    obtain rfl : d = d' := Option.some.inj (d.ofName?_name.symm.trans hsorts.direction)
    rw [ih]
    rfl

section

variable {c : Catalog} {direction : String}

mutual

/-- The sort keys of criteria are those of the attributes that they name. -/
theorem exists_names_of_members {scope : Scope} {context : ContextPath} {keys : List SortKey}
    (members : List (String × Json))
    (h : sortKeysOfMembers c direction scope context members = .ok keys) :
    ∃ as, Names c scope members as ∧ List.Forall₂ (Sorts direction) as keys := by
  cases members with
  | nil =>
    cases h
    exact ⟨[], .nil, .nil⟩
  | cons m members =>
    obtain ⟨name, value⟩ := m
    rw [sortKeysOfMembers] at h
    obtain ⟨first, hfirst, h⟩ := bind_eq_ok.1 h
    obtain ⟨others, hothers, h⟩ := bind_eq_ok.1 h
    cases h
    -- The member's own attributes come in front of those that the others name.
    obtain ⟨bs, hmembers, hbs⟩ := exists_names_of_members members hothers
    exact exists_names_of_field value hfirst hmembers hbs
termination_by structural members

theorem exists_names_of_field {scope : Scope} {context : ContextPath} {name : String}
    {first others : List SortKey} {members : List (String × Json)} {bs : List AttributeRef}
    (value : Json) (h : sortKeysOfField c direction scope context name value = .ok first)
    (tail : Names c scope members bs) (hbs : List.Forall₂ (Sorts direction) bs others) :
    ∃ as, Names c scope ((name, value) :: members) as ∧
      List.Forall₂ (Sorts direction) as (first ++ others) := by
  cases value with
  | object below =>
    rw [sortKeysOfField] at h
    obtain ⟨found, hfound, hkeys⟩ := bind_eq_ok.1 h
    rcases Catalog.field_iff.1 (within_eq_ok.1 hfound) with ⟨a, ha, rfl⟩ | ⟨ha, r, hr, rfl⟩
    · dsimp only at hkeys
      split at hkeys
      · rename_i hbelow
        obtain rfl := List.isEmpty_iff.1 hbelow
        split at hkeys
        · rename_i d hd
          obtain rfl := Except.ok.inj hkeys
          exact ⟨_, .attr ha tail, .cons ⟨rfl, hd⟩ hbs⟩
        · cases hkeys
      · cases hkeys
    · obtain ⟨as, hbelow, has⟩ := exists_names_of_members below hkeys
      exact ⟨_, .relationship ha hr hbelow tail, List.rel_append has hbs⟩
  | _ =>
    rw [sortKeysOfField.eq_def] at h
    cases h
termination_by structural value

end

theorem sortKeysOfField_relationship {scope : Scope} {context : ContextPath} {name : String}
    {r : Relationship} (hattr : c.attribute? scope.currentType name = none)
    (hr : c.relationship? scope.currentType name = some r) (members : List (String × Json)) :
    sortKeysOfField c direction scope context name (.object members) =
      sortKeysOfMembers c direction (scope.enter name r.target) context members := by
  have hfield : c.field scope name = .ok (.relationship (scope.enter name r.target)) :=
    Catalog.field_iff.2 (.inr ⟨hattr, r, hr, rfl⟩)
  rw [sortKeysOfField, hfield]
  rfl

/-- Criteria that name no attribute have no sort keys, whatever the direction is. -/
theorem Names.sortKeys_of_nil {scope : Scope} {members : List (String × Json)}
    {as : List AttributeRef} (h : Names c scope members as) (has : as = [])
    (context : ContextPath) :
    sortKeysOfMembers c direction scope context members = .ok [] := by
  induction h generalizing context with
  | nil => rfl
  | attr => cases has
  | @relationship s name r below members as bs hattr hr inner tail ihinner ihtail =>
    obtain ⟨has, hbs⟩ := List.append_eq_nil_iff.1 has
    have hfirst := (sortKeysOfField_relationship hattr hr below).trans
      (ihinner has (context.push name))
    exact bind_eq_ok.2 ⟨[], hfirst, bind_eq_ok.2 ⟨[], ihtail hbs context, rfl⟩⟩

/-- Criteria that name an attribute are refused where they name the first one, if the direction is
unknown. -/
theorem Names.sortKeys_of_unknown (hdirection : Direction.ofName? direction = none) {scope : Scope}
    {members : List (String × Json)} {as rest : List AttributeRef} {a : AttributeRef}
    (h : Names c scope members as) (has : as = a :: rest) :
    sortKeysOfMembers c direction scope ⟨scope.navigation⟩ members =
      .error ((Rejection.unknownDirection direction).within
        ⟨a.path.navigation ++ [a.path.name]⟩) := by
  -- The labels of the context are the relationships followed: each step adds its name to both.
  induction h generalizing rest with
  | nil => cases has
  | @attr s name found members as ha tail ih =>
    cases has
    have hfield : c.field s name = .ok (.attr (s.reference found)) :=
      Catalog.field_iff.2 (.inl ⟨found, ha, rfl⟩)
    have hfirst : sortKeysOfField c direction s ⟨s.navigation ++ [name]⟩ name (.object []) =
        .error ((Rejection.unknownDirection direction).within ⟨s.navigation ++ [name]⟩) := by
      rw [sortKeysOfField, hfield]
      simp [within, bind, Except.bind, hdirection]
    obtain rfl := Catalog.name_of_attribute? ha
    exact bind_eq_error.2 (.inl hfirst)
  | @relationship s name r below members as bs hattr hr inner tail ihinner ihtail =>
    -- The first attribute stands below the relationship, or else behind it.
    cases as with
    | cons b as =>
      cases has
      have hfirst := (sortKeysOfField_relationship hattr hr below).trans (ihinner rfl)
      exact bind_eq_error.2 (.inl hfirst)
    | nil =>
      have hfirst : sortKeysOfField c direction s ⟨s.navigation ++ [name]⟩ name (.object below) =
          .ok [] := by
        rw [sortKeysOfField_relationship hattr hr]
        exact inner.sortKeys_of_nil rfl _
      exact bind_eq_error.2 (.inr ⟨[], hfirst, bind_eq_error.2 (.inl (ihtail has))⟩)

end

/-! ## The leaves of a document -/

/-- What criteria name are the attributes that stand at their leaves. -/
theorem Names.filterMap_leaves {c : Catalog} {scope : Scope} {members : List (String × Json)}
    {as : List AttributeRef} (h : Names c scope members as)
    (hscope : c.target? scope.rootType scope.navigation = some scope.currentType) :
    (leavesOfMembers scope.navigation members).filterMap (c.attributeAt? scope.rootType) =
      as.map (·.path) := by
  induction h with
  | nil => rfl
  | @attr s name a members as ha tail ih =>
    obtain rfl := Catalog.name_of_attribute? ha
    have hplace : c.attributeAt? s.rootType ⟨s.navigation, a.name⟩ = some (s.reference a).path := by
      rw [Catalog.attributeAt?, hscope, Option.bind_some, ha]
      rfl
    rw [leavesOfMembers, leavesOfValue, if_pos List.isEmpty_nil, List.singleton_append,
      List.filterMap_cons_some hplace, ih hscope, List.map_cons]
  | @relationship s name r below members as bs hattr hr inner tail ihinner ihtail =>
    have hbelow : (leavesOfValue s.navigation name (.object below)).filterMap
        (c.attributeAt? s.rootType) = as.map (·.path) := by
      rw [leavesOfValue]
      by_cases hempty : below.isEmpty = true
      · -- A relationship without criteria is a leaf that is no attribute.
        obtain rfl := List.isEmpty_iff.1 hempty
        have hplace : c.attributeAt? s.rootType ⟨s.navigation, name⟩ = none := by
          rw [Catalog.attributeAt?, hscope, Option.bind_some, hattr]
          rfl
        cases inner
        rw [if_pos List.isEmpty_nil, List.filterMap_cons_none hplace]
        rfl
      · rw [if_neg hempty]
        refine ihinner ?_
        rw [Scope.enter, Catalog.target?_append, hscope]
        simp [Catalog.target?, hr]
    rw [leavesOfMembers, List.filterMap_append, hbelow, ihtail hscope, List.map_append]

end Structural

/-! ## Orderings piece by piece -/

namespace OrderBy

/-- The keys of the second ordering decide where those of the first one do not. -/
def and (o p : OrderBy) : OrderBy := ⟨o.keys ++ p.keys⟩

/-- One ordering in front of another, of which either may be missing. -/
def merge : Option OrderBy → Option OrderBy → Option OrderBy
  | some o, some p => some (o.and p)
  | o, p => o <|> p

/-- The ordering by the keys, if there are any. -/
def ofKeys? : List SortKey → Option OrderBy
  | [] => none
  | keys => some ⟨keys⟩

theorem merge_ofKeys? (keys others : List SortKey) :
    merge (ofKeys? keys) (ofKeys? others) = ofKeys? (keys ++ others) := by
  cases keys with
  | nil => cases others <;> rfl
  | cons k keys =>
    cases others with
    | nil =>
      rw [List.append_nil]
      rfl
    | cons l others => rfl

theorem ofKeys?_eq_none_iff {keys : List SortKey} : ofKeys? keys = none ↔ keys = [] := by
  cases keys <;> simp [ofKeys?]

end OrderBy

namespace Structural

section

variable (c : Catalog) (direction : String)

mutual

/-- The ordering so far, with what the members of an object add to it. -/
def mergeMembers (scope : Scope) (context : ContextPath) (result : Option OrderBy) :
    List (String × Json) → Except CompileError (Option OrderBy)
  | [] => .ok result
  | (name, value) :: members => do
    let next ← orderOfField scope (context.push name) name value
    mergeMembers scope context (OrderBy.merge result next) members
termination_by structural members => members

/-- The ordering by a member of the current type, if it names an attribute. -/
def orderOfField (scope : Scope) (context : ContextPath) (name : String) (value : Json) :
    Except CompileError (Option OrderBy) :=
  match value with
  | .object members => do
    match ← within context (c.field scope name) with
    | .attr a =>
      if members.isEmpty then
        match Direction.ofName? direction with
        | some d => .ok (some ⟨[⟨a.path, d⟩]⟩)
        | none => .error ((Rejection.unknownDirection direction).within context)
      else .error ((Rejection.orderNeedsEmptyObject name (.object members)).within context)
    | .relationship target => mergeMembers target context none members
  | found => .error ((Rejection.orderNeedsObject name found).within context)
termination_by structural value

end

/-- The ordering that criteria write over the entities of a type, if they name an attribute. -/
def mergedOrderBy (rootType : String) (criteria : List (String × Json)) :
    Except CompileError (Option OrderBy) := do
  let context : ContextPath := {}
  let scope ← within context (c.root rootType)
  mergeMembers c direction scope context none criteria

mutual

theorem mergeMembers_eq (members : List (String × Json)) (scope : Scope) (context : ContextPath)
    (before : List SortKey) :
    mergeMembers c direction scope context (OrderBy.ofKeys? before) members =
      (sortKeysOfMembers c direction scope context members).map
        fun keys => OrderBy.ofKeys? (before ++ keys) := by
  cases members with
  | nil =>
    rw [mergeMembers, sortKeysOfMembers, Except.map, List.append_nil]
  | cons m members =>
    obtain ⟨name, value⟩ := m
    rw [mergeMembers, sortKeysOfMembers, orderOfField_eq value]
    cases sortKeysOfField c direction scope (context.push name) name value with
    | error e => rfl
    | ok first =>
      show mergeMembers c direction scope context
        (OrderBy.merge (OrderBy.ofKeys? before) (OrderBy.ofKeys? first)) members = _
      rw [OrderBy.merge_ofKeys?, mergeMembers_eq members]
      cases sortKeysOfMembers c direction scope context members with
      | error e => rfl
      | ok others =>
        show Except.ok (OrderBy.ofKeys? (before ++ first ++ others)) =
          .ok (OrderBy.ofKeys? (before ++ (first ++ others)))
        rw [List.append_assoc]
termination_by structural members

theorem orderOfField_eq (value : Json) (scope : Scope) (context : ContextPath) (name : String) :
    orderOfField c direction scope context name value =
      (sortKeysOfField c direction scope context name value).map OrderBy.ofKeys? := by
  cases value with
  | object members =>
    rw [orderOfField, sortKeysOfField]
    cases within context (c.field scope name) with
    | error e => rfl
    | ok found =>
      cases found with
      | attr a =>
        cases members.isEmpty with
        | true => cases Direction.ofName? direction <;> rfl
        | false => rfl
      | relationship target =>
        exact mergeMembers_eq members target context []
  | _ =>
    rw [orderOfField.eq_def, sortKeysOfField.eq_def]
    rfl
termination_by structural value

end

/-- The ordering put together piece by piece is the one by all sort keys. -/
theorem mergedOrderBy_eq (rootType : String) (criteria : List (String × Json)) :
    mergedOrderBy c direction rootType criteria =
      (orderBy c direction rootType criteria).map fun order => OrderBy.ofKeys? order.keys := by
  rw [mergedOrderBy, orderBy]
  cases within {} (c.root rootType) with
  | error e => rfl
  | ok scope =>
    show mergeMembers c direction scope {} (OrderBy.ofKeys? []) criteria = _
    rw [mergeMembers_eq]
    show _ = ((sortKeysOfMembers c direction scope {} criteria >>= _).map _)
    cases sortKeysOfMembers c direction scope {} criteria <;> rfl

end

/-! ## Orderings by criteria -/

variable {c : Catalog} {rootType : String}

theorem mergedOrderBy_of_keys {direction : String} {criteria : List (String × Json)}
    {e : EntityType} (hroot : c.entity? rootType = some e) :
    mergedOrderBy c direction rootType criteria =
      (sortKeysOfMembers c direction (.root rootType) {} criteria).map OrderBy.ofKeys? := by
  have hscope : c.root rootType = .ok (.root rootType) := Catalog.root_iff.2 ⟨⟨e, hroot⟩, rfl⟩
  rw [mergedOrderBy_eq, orderBy, hscope]
  show ((sortKeysOfMembers c direction (.root rootType) {} criteria >>= _).map _) = _
  cases sortKeysOfMembers c direction (.root rootType) {} criteria <;> rfl

/-- The keys of an ordering are those of the leaves of the criteria at which attributes stand, in
the order of the document, each in the given direction. There is no ordering exactly if no
attribute stands at a leaf. -/
theorem orderBy_document_order {d : Direction} {criteria : List (String × Json)}
    {result : Option OrderBy} (h : mergedOrderBy c d.name rootType criteria = .ok result) :
    ∃ keys, orderBy c d.name rootType criteria = .ok ⟨keys⟩ ∧ result = OrderBy.ofKeys? keys ∧
      keys = ((leavesOfMembers [] criteria).filterMap (c.attributeAt? rootType)).map (⟨·, d⟩) ∧
      (result = none ↔ ∀ p ∈ leavesOfMembers [] criteria, c.attributeAt? rootType p = none) := by
  rw [mergedOrderBy_eq] at h
  obtain ⟨⟨keys⟩, horder, rfl⟩ := map_eq_ok.1 h
  obtain ⟨scope, hscope, hbehind⟩ := bind_eq_ok.1 horder
  obtain ⟨keys', hkeys, heq⟩ := bind_eq_ok.1 hbehind
  obtain rfl : keys' = keys := OrderBy.mk.inj (Except.ok.inj heq)
  obtain ⟨-, rfl⟩ := Catalog.root_iff.1 (within_eq_ok.1 hscope)
  obtain ⟨as, has, hsorts⟩ := exists_names_of_members criteria hkeys
  have hleaves : (leavesOfMembers [] criteria).filterMap (c.attributeAt? rootType) =
      as.map (·.path) := has.filterMap_leaves rfl
  have hall := eq_map_of_sorts hsorts
  rw [← hleaves] at hall
  refine ⟨keys', horder, rfl, hall, ?_⟩
  rw [OrderBy.ofKeys?_eq_none_iff, ← List.filterMap_eq_nil_iff]
  show keys' = [] ↔ _
  rw [hall, List.map_eq_nil_iff]

/-- Criteria to sort persons by the name of the manager and then by the age. The manager's manager
adds nothing. -/
def byManagerThenAge : List (String × Json) :=
  [("manager", .object [("name", .object []), ("manager", .object [])]), ("age", .object [])]

/-- The keys for these criteria. -/
def managerThenAge : List SortKey :=
  [⟨⟨"Person", ["manager"], "name", .string, true⟩, .descending⟩,
    ⟨⟨"Person", [], "age", .integer, false⟩, .descending⟩]

theorem orderBy_managerThenAge :
    orderBy staff "DESCENDING" "Person" byManagerThenAge = .ok ⟨managerThenAge⟩ ∧
      leavesOfMembers [] byManagerThenAge =
        [⟨["manager"], "name"⟩, ⟨["manager"], "manager"⟩, ⟨[], "age"⟩] := by
  have hmerged : mergedOrderBy staff Direction.descending.name "Person" byManagerThenAge =
      .ok (some ⟨managerThenAge⟩) := by rfl
  obtain ⟨keys, horder, -, hkeys, -⟩ := orderBy_document_order hmerged
  obtain rfl : keys = managerThenAge := hkeys.trans rfl
  exact ⟨horder, rfl⟩

/-- With a direction that is unknown there is never an ordering: criteria that are made of
relationships alone, at every depth, name nothing to sort by, and all others are refused. If nothing
else is wrong with them, that is where they name the first attribute. -/
theorem orderBy_unknown_direction {direction : String}
    (hdirection : direction ≠ "ASCENDING" ∧ direction ≠ "DESCENDING") {e : EntityType}
    (hroot : c.entity? rootType = some e) (criteria : List (String × Json)) :
    (Names c (.root rootType) criteria [] ∧
        mergedOrderBy c direction rootType criteria = .ok none ∨
      ¬Names c (.root rootType) criteria [] ∧
        ∃ error, mergedOrderBy c direction rootType criteria = .error error) ∧
      ∀ a as, Names c (.root rootType) criteria (a :: as) →
        mergedOrderBy c direction rootType criteria =
          .error ((Rejection.unknownDirection direction).within
            ⟨a.path.navigation ++ [a.path.name]⟩) := by
  have hunknown : Direction.ofName? direction = none := by
    unfold Direction.ofName?
    split
    · exact absurd rfl hdirection.1
    · exact absurd rfl hdirection.2
    · rfl
  rw [mergedOrderBy_of_keys hroot]
  constructor
  · cases hkeys : sortKeysOfMembers c direction (.root rootType) {} criteria with
    | ok keys =>
      obtain ⟨as, has, hsorts⟩ := exists_names_of_members criteria hkeys
      cases hsorts with
      | nil => exact .inl ⟨has, rfl⟩
      | cons hfirst =>
        have hknown := hfirst.direction
        rw [hunknown] at hknown
        cases hknown
    | error error =>
      refine .inr ⟨fun hnone => ?_, error, rfl⟩
      cases hkeys.symm.trans (hnone.sortKeys_of_nil rfl {})
  · intro a as h
    have herror := Names.sortKeys_of_unknown hunknown h rfl
    exact congrArg (·.map OrderBy.ofKeys?) herror

/-- Criteria that name the manager's name are refused in a direction that is none. -/
theorem orderBy_sideways_of_name :
    mergedOrderBy staff "SIDEWAYS" "Person" [("manager", .object [("name", .object [])])] =
      .error ((Rejection.unknownDirection "SIDEWAYS").within ⟨["manager", "name"]⟩) := by
  have hdirection : "SIDEWAYS" ≠ "ASCENDING" ∧ "SIDEWAYS" ≠ "DESCENDING" := by decide
  have hroot : ∃ e, staff.entity? "Person" = some e := ⟨_, rfl⟩
  obtain ⟨e, hroot⟩ := hroot
  obtain ⟨-, hrefused⟩ := orderBy_unknown_direction hdirection hroot
    [("manager", .object [("name", .object [])])]
  exact hrefused _ _ (.relationship rfl rfl (.attr rfl .nil) .nil)

/-- Criteria that name nothing are not refused in it. -/
theorem orderBy_sideways_of_nothing :
    "SIDEWAYS" ≠ "ASCENDING" ∧ "SIDEWAYS" ≠ "DESCENDING" ∧
      (∃ e, staff.entity? "Person" = some e) ∧
      mergedOrderBy staff "SIDEWAYS" "Person" [] = .ok none :=
  ⟨by decide, by decide, ⟨_, rfl⟩, rfl⟩

end Structural

end Criteria
