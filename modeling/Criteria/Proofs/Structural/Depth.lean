import Criteria.Proofs.Predicate.Depth
import Criteria.Proofs.Soundness
import Criteria.Proofs.Structural.Steps

/-! # Depth of converted criteria

The conversion counts a level for every item of a list, relationship, attribute, function and filter
that it goes into. The levels that it has counted are at least those around what it yields, so the
predicate of criteria is no deeper than the limit, relationships included (`convert_depth`).
-/

set_option autoImplicit false

namespace Criteria.Structural

/-! ## Room -/

/-- The levels below a depth have room for a predicate, of which so many levels are already counted
in that depth: the relationships behind which it is about, and the functions around its
attribute. -/
def HasRoom (limits : Limits) (depth counted : Nat) (p : Predicate) : Prop :=
  p.depth 1 + depth ≤ limits.maxDepth + counted

namespace HasRoom

variable {limits : Limits} {depth counted : Nat} {p q : Predicate}

theorem all (h : depth ≤ limits.maxDepth) : HasRoom limits depth counted .all := by
  unfold HasRoom
  rw [Predicate.depth]
  omega

theorem of_max {r : Predicate} (hp : HasRoom limits depth counted p)
    (hq : HasRoom limits depth counted q) (hr : r.depth 1 = max (p.depth 1) (q.depth 1)) :
    HasRoom limits depth counted r := by
  unfold HasRoom at *
  omega

theorem and (hp : HasRoom limits depth counted p) (hq : HasRoom limits depth counted q) :
    HasRoom limits depth counted (p.and q) :=
  hp.of_max hq (Predicate.depth_and p q)

theorem join {combinator : Combinator} (hp : HasRoom limits depth counted p)
    (hq : HasRoom limits depth counted q) : HasRoom limits depth counted (combinator.join p q) := by
  cases combinator with
  | conjunction => exact hp.and hq
  | disjunction => exact hp.of_max hq (Predicate.depth_or p q)

/-- Room for more levels, of which more are counted. -/
theorem shift {more : Nat} (h : HasRoom limits (depth + more) (counted + more) p) :
    HasRoom limits depth counted p := by
  unfold HasRoom at *
  omega

/-- Room further down is room further up. -/
theorem mono {more : Nat} (h : HasRoom limits (depth + more) counted p) :
    HasRoom limits depth counted p := by
  unfold HasRoom at *
  omega

end HasRoom

variable {c : Catalog} {limits : Limits}

/-! ## Operators -/

/-- How many levels are counted for a reference: its relationships and its functions. -/
def levelsOf (a : AttributeRef) : Nat := a.path.navigation.length + a.nesting

theorem compare_hasRoom {a : AttributeRef} {depth : Nat} {comparator : Comparator}
    {argument : Argument} {p : Predicate} (hdepth : depth ≤ limits.maxDepth)
    (h : a.compare limits comparator argument = .ok p) : HasRoom limits depth (levelsOf a) p := by
  have hle : p.depth 1 ≤ 1 * a.path.navigation.length + a.nesting :=
    (AttributeRef.compare_isYieldOf h).depth_le
  unfold HasRoom levelsOf
  omega

mutual

theorem ofOperators_hasRoom (members : List (String × Json)) {a : AttributeRef}
    {context : ContextPath} {depth : Nat} {skipped : List String} {p q : Predicate}
    (hdepth : depth ≤ limits.maxDepth)
    (h : ofOperators limits a context depth skipped p members = .ok q)
    (hp : HasRoom limits depth (levelsOf a) p) : HasRoom limits depth (levelsOf a) q := by
  cases members with
  | nil =>
    rw [ofOperators] at h
    cases h
    exact hp
  | cons m members =>
    obtain ⟨name, parameter⟩ := m
    rcases ofOperators_cons_eq_ok.1 h with ⟨-, h⟩ | ⟨-, r, hr, h⟩
    · exact ofOperators_hasRoom members hdepth h hp
    · refine ofOperators_hasRoom members hdepth h (hp.and ?_)
      cases hr with
      | compare offered compared => exact compare_hasRoom hdepth compared
      | function offered applied => exact ofFunction_hasRoom parameter applied
termination_by structural members

theorem ofFunction_hasRoom (parameter : Json) {a : AttributeRef} {context : ContextPath}
    {depth : Nat} {name : FunctionName} {p : Predicate}
    (h : ofFunction limits a context depth name parameter = .ok p) :
    HasRoom limits depth (levelsOf a) p := by
  cases parameter with
  | object members =>
    obtain ⟨-, function, skipped, derived, -, hderived, hdepth, h⟩ := ofFunction_object_eq_ok.1 h
    obtain ⟨-, -, rfl⟩ := AttributeRef.apply_iff.1 hderived
    have hinner : HasRoom limits (depth + 1) (levelsOf (.derived function a)) p :=
      ofOperators_hasRoom members hdepth h (.all hdepth)
    exact hinner.shift
  | _ =>
    obtain ⟨members, heq⟩ := exists_object_of_ofFunction h
    cases heq
termination_by structural parameter

end

/-! ## Criteria -/

mutual

/-- The relationships of a scope are counted in the depth at which it is read. -/
theorem ofMembers_hasRoom (members : List (String × Json)) {scope : Scope}
    {context : ContextPath} {depth : Nat} {p q : Predicate} (hdepth : depth ≤ limits.maxDepth)
    (h : ofMembers c limits scope context depth p members = .ok q)
    (hp : HasRoom limits depth scope.navigation.length p) :
    HasRoom limits depth scope.navigation.length q := by
  cases members with
  | nil =>
    rw [ofMembers] at h
    cases h
    exact hp
  | cons m members =>
    obtain ⟨key, value⟩ := m
    obtain ⟨r, hr, h⟩ := ofMembers_cons_eq_ok.1 h
    exact ofMembers_hasRoom members hdepth h (hp.and (ofEntry_hasRoom value hdepth hr))
termination_by structural members

theorem ofEntry_hasRoom (value : Json) {scope : Scope} {context : ContextPath} {depth : Nat}
    {key : Key} {p : Predicate} (hdepth : depth ≤ limits.maxDepth)
    (h : ofEntry c limits scope context depth key value = .ok p) :
    HasRoom limits depth scope.navigation.length p := by
  cases value with
  | array items =>
    cases items with
    | nil =>
      rw [ofEntry.eq_def] at h
      cases h
    | cons item items =>
      obtain ⟨combinator, q, rfl, hq, h⟩ := ofEntry_items_eq_ok.1 h
      exact ofItems_hasRoom items h (ofItem_hasRoom item hq)
  | object members =>
    cases ofEntry_object_eq_ok.1 h with
    | @bare test relationship chain empty =>
      obtain ⟨-, rfl⟩ := Scope.relationshipPath?_eq_some.1 chain
      unfold HasRoom
      rw [Predicate.depth, Predicate.depthOfFilter]
      dsimp only
      omega
    | @filtered test relationship filter chain nonempty admitted inner =>
      obtain ⟨-, rfl⟩ := Scope.relationshipPath?_eq_some.1 chain
      -- The filter is about the end of the chain, so no relationship of it is counted yet.
      have hfilter : HasRoom limits (depth + 1) 0 filter :=
        ofMembers_hasRoom members admitted.depth_le inner (.all admitted.depth_le)
      unfold HasRoom at *
      rw [Predicate.depth, Predicate.depthOfFilter]
      dsimp only
      omega
    | attr nonempty found depth_le inner =>
      rcases Catalog.field_iff.1 found with ⟨a, -, heq⟩ | ⟨-, r, -, heq⟩
      · cases heq
        have hoperators : HasRoom limits (depth + 1) scope.navigation.length p :=
          ofOperators_hasRoom members depth_le inner (.all depth_le)
        exact hoperators.mono
      · cases heq
    | relationship nonempty found admitted inner =>
      rcases Catalog.field_iff.1 found with ⟨a, -, heq⟩ | ⟨-, r, -, heq⟩
      · cases heq
      · cases heq
        have hmembers : HasRoom limits (depth + 1) (scope.navigation ++ [_]).length p :=
          ofMembers_hasRoom members admitted.depth_le inner (.all admitted.depth_le)
        rw [List.length_append] at hmembers
        exact hmembers.shift
  | _ =>
    rw [ofEntry.eq_def] at h
    cases h
termination_by structural value

theorem ofItem_hasRoom (item : Json) {scope : Scope} {context : ContextPath} {depth : Nat}
    {combinator : Combinator} {index : Nat} {p : Predicate}
    (h : ofItem c limits scope context depth combinator index item = .ok p) :
    HasRoom limits depth scope.navigation.length p := by
  cases item with
  | object members =>
    obtain ⟨admitted, h⟩ := ofItem_object_eq_ok.1 h
    have hmembers : HasRoom limits (depth + 1) scope.navigation.length p :=
      ofMembers_hasRoom members admitted.depth_le h (.all admitted.depth_le)
    exact hmembers.mono
  | _ =>
    rw [ofItem.eq_def] at h
    cases h
termination_by structural item

theorem ofItems_hasRoom (items : List Json) {scope : Scope} {context : ContextPath}
    {depth index : Nat} {combinator : Combinator} {p q : Predicate}
    (h : ofItems c limits scope context depth combinator index p items = .ok q)
    (hp : HasRoom limits depth scope.navigation.length p) :
    HasRoom limits depth scope.navigation.length q := by
  cases items with
  | nil =>
    rw [ofItems] at h
    cases h
    exact hp
  | cons item items =>
    obtain ⟨r, hr, h⟩ := ofItems_cons_eq_ok.1 h
    exact ofItems_hasRoom items h (hp.join (ofItem_hasRoom item hr))
termination_by structural items

end

/-- Wherever a node lies in the predicate of criteria, the filters around it, the relationships that
lead to it, its own included, and the functions around its attribute are together no more than the
limit. -/
theorem convert_depth {rootType : String} {criteria : List (String × Json)} {p node : Predicate}
    {filters hops : Nat} (h : convert c limits rootType criteria = .ok p)
    (hnode : p.Reaches filters hops node) :
    filters + (hops + node.ownHops) + node.ownFunctions ≤ limits.maxDepth := by
  obtain ⟨-, admitted, h⟩ := convert_eq_ok.1 h
  have hroom : HasRoom limits 0 0 p :=
    ofMembers_hasRoom criteria admitted.depth_le h (.all admitted.depth_le)
  have hdepth : filters + 1 * (hops + node.ownHops) + node.ownFunctions ≤ p.depth 1 :=
    hnode.le_depth
  unfold HasRoom at hroom
  omega

/-- The criteria for a manager whose own manager's name starts with an `a`, large or small. -/
def managedByACriteria : List (String × Json) :=
  [("manager", .object [("exists", .object [("manager", .object startsWithACriteria)])])]

/-- The comparison of the name of the manager's manager. -/
def managersName : Predicate :=
  .comparison ⟨.derived .toLowerCase (.simple ⟨"Person", ["manager"], "name", .string, true⟩),
    .startsWith, .one (.string "a")⟩

/-- Persons with a manager whose own manager's name starts with an `a`, large or small. -/
def managedByA : Predicate :=
  .existence .present ⟨"Person", ["manager"], "Person"⟩ (some managersName)

theorem convert_managedByA :
    convert staff { maxDepth := 5 } "Person" managedByACriteria = .ok managedByA := by
  rfl

/-- One filter, two relationships and one function, in five levels. -/
theorem managersName_depth :
    managedByA.Reaches 1 1 managersName ∧ 1 + (1 + managersName.ownHops) +
      managersName.ownFunctions ≤ 5 := by
  have hnode : managedByA.Reaches 1 1 managersName := .filter .self
  exact ⟨hnode, convert_depth convert_managedByA hnode⟩

end Criteria.Structural
