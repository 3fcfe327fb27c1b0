import Criteria.Proofs.Runs

/-! # Two runs on structural criteria

Two runs on nested objects follow one another if they do so at every lookup of a name, every
comparison and every check of the depth. The shape of the criteria is looked at by both in the same
way, so an error about the shape is common to them.
-/

set_option autoImplicit false

namespace Criteria.Structural

/-- Two limits under which the checks of the depth differ as the difference allows. -/
def DepthsFollow (d : Difference Cause) (limits limits' : Limits) : Prop :=
  ∀ context depth, Follows d.errors (checkDepth limits context depth)
    (checkDepth limits' context depth)

variable {d : Difference Cause} {c c' : Catalog} {limits limits' : Limits}

theorem DepthsFollow.refl (limits : Limits) : DepthsFollow d limits limits := fun _ _ => .refl _

theorem DepthsFollow.checkMembers (depths : DepthsFollow d limits limits')
    (context : ContextPath) (depth : Nat) (members : List (String × Json)) :
    Follows d.errors (checkMembers limits context depth members)
      (checkMembers limits' context depth members) := by
  apply (depths context depth).bind
  intro _
  exact .refl _

/-! ## Operators -/

mutual

theorem ofOperators_follows (compares : ComparesFollow d limits limits')
    (depths : DepthsFollow d limits limits') (members : List (String × Json)) (a : AttributeRef)
    (context : ContextPath) (depth : Nat) (skipped : List String) (p : Predicate) :
    Follows d.errors (ofOperators limits a context depth skipped p members)
      (ofOperators limits' a context depth skipped p members) := by
  cases members with
  | nil =>
    rw [ofOperators, ofOperators]
    exact .ok p
  | cons m members =>
    obtain ⟨name, parameter⟩ := m
    rw [ofOperators, ofOperators]
    by_cases hskipped : name ∈ skipped
    · rw [if_pos hskipped, if_pos hskipped]
      exact ofOperators_follows compares depths members a context depth skipped p
    · rw [if_neg hskipped, if_neg hskipped]
      apply Follows.bind_same
      rintro ⟨operator, arity⟩
      have hothers : ∀ q, Follows d.errors
          (ofOperators limits a context depth skipped (p.and q) members)
          (ofOperators limits' a context depth skipped (p.and q) members) := by
        intro q
        exact ofOperators_follows compares depths members a context depth skipped (p.and q)
      cases operator with
      | compare comparator => exact ((compares a comparator _).within context).bind hothers
      | function function =>
        exact (ofFunction_follows compares depths parameter a context depth function).bind hothers
termination_by structural members

theorem ofFunction_follows (compares : ComparesFollow d limits limits')
    (depths : DepthsFollow d limits limits') (parameter : Json) (a : AttributeRef)
    (context : ContextPath) (depth : Nat) (name : FunctionName) :
    Follows d.errors (ofFunction limits a context depth name parameter)
      (ofFunction limits' a context depth name parameter) := by
  cases parameter with
  | object members =>
    rw [ofFunction, ofFunction]
    by_cases hempty : members.isEmpty = true
    · rw [if_pos hempty, if_pos hempty]
      exact .refl _
    · rw [if_neg hempty, if_neg hempty]
      apply Follows.bind_same
      rintro ⟨function, skipped⟩
      apply Follows.bind_same
      intro derived
      apply (depths context (depth + 1)).bind
      intro _
      exact ofOperators_follows compares depths members derived context (depth + 1) skipped .all
  | array items =>
    rw [ofFunction.eq_def, ofFunction.eq_def]
    cases items <;> exact .refl _
  | _ =>
    rw [ofFunction.eq_def, ofFunction.eq_def]
    exact .refl _
termination_by structural parameter

end

/-! ## Entries -/

mutual

theorem ofMembers_follows (lookups : LookupsFollow d c c')
    (compares : ComparesFollow d limits limits') (depths : DepthsFollow d limits limits')
    (members : List (String × Json)) (scope : Scope) (context : ContextPath) (depth : Nat)
    (p : Predicate) :
    Follows d.errors (ofMembers c limits scope context depth p members)
      (ofMembers c' limits' scope context depth p members) := by
  cases members with
  | nil =>
    rw [ofMembers, ofMembers]
    exact .ok p
  | cons m members =>
    obtain ⟨key, value⟩ := m
    rw [ofMembers, ofMembers]
    apply (ofEntry_follows lookups compares depths value scope context depth (.ofText key)).bind
    intro q
    exact ofMembers_follows lookups compares depths members scope context depth (p.and q)
termination_by structural members

theorem ofEntry_follows (lookups : LookupsFollow d c c')
    (compares : ComparesFollow d limits limits') (depths : DepthsFollow d limits limits')
    (value : Json) (scope : Scope) (context : ContextPath) (depth : Nat) (key : Key) :
    Follows d.errors (ofEntry c limits scope context depth key value)
      (ofEntry c' limits' scope context depth key value) := by
  cases value with
  | array items =>
    rw [ofEntry.eq_def, ofEntry.eq_def]
    cases items with
    | nil => exact .refl _
    | cons item items =>
      cases key with
      | combinator combinator =>
        apply (ofItem_follows lookups compares depths item scope context depth combinator 0).bind
        intro p
        exact ofItems_follows lookups compares depths items scope context depth combinator 1 p
      | _ => exact .refl _
  | object members =>
    rw [ofEntry.eq_def, ofEntry.eq_def]
    dsimp only
    cases key with
    | combinator combinator => exact .refl _
    | existence test =>
      dsimp only
      cases scope.relationshipPath? with
      | none => exact .refl _
      | some relationship =>
        dsimp only
        by_cases hempty : members.isEmpty = true
        · rw [if_pos hempty, if_pos hempty]
          exact .refl _
        · rw [if_neg hempty, if_neg hempty]
          apply (depths.checkMembers {} (depth + 1) members).bind
          intro _
          apply (ofMembers_follows lookups compares depths members scope.rebase {} (depth + 1)
            .all).bind
          intro filter
          exact .refl _
    | field name =>
      dsimp only
      by_cases hempty : members.isEmpty = true
      · rw [if_pos hempty, if_pos hempty]
        exact .refl _
      · rw [if_neg hempty, if_neg hempty]
        apply ((lookups.field scope name).within (context.push name)).bind
        intro found
        cases found with
        | attr a =>
          apply (depths (context.push name) (depth + 1)).bind
          intro _
          exact ofOperators_follows compares depths members a _ (depth + 1) [] .all
        | relationship target =>
          apply (depths.checkMembers (context.push name) (depth + 1) members).bind
          intro _
          exact ofMembers_follows lookups compares depths members target _ (depth + 1) .all
  | _ =>
    rw [ofEntry.eq_def, ofEntry.eq_def]
    exact .refl _
termination_by structural value

theorem ofItem_follows (lookups : LookupsFollow d c c')
    (compares : ComparesFollow d limits limits') (depths : DepthsFollow d limits limits')
    (item : Json) (scope : Scope) (context : ContextPath) (depth : Nat) (combinator : Combinator)
    (index : Nat) :
    Follows d.errors (ofItem c limits scope context depth combinator index item)
      (ofItem c' limits' scope context depth combinator index item) := by
  cases item with
  | object members =>
    rw [ofItem, ofItem]
    apply (depths.checkMembers _ (depth + 1) members).bind
    intro _
    exact ofMembers_follows lookups compares depths members scope _ (depth + 1) .all
  | _ =>
    rw [ofItem.eq_def, ofItem.eq_def]
    exact .refl _
termination_by structural item

theorem ofItems_follows (lookups : LookupsFollow d c c')
    (compares : ComparesFollow d limits limits') (depths : DepthsFollow d limits limits')
    (items : List Json) (scope : Scope) (context : ContextPath) (depth : Nat)
    (combinator : Combinator) (index : Nat) (p : Predicate) :
    Follows d.errors (ofItems c limits scope context depth combinator index p items)
      (ofItems c' limits' scope context depth combinator index p items) := by
  cases items with
  | nil =>
    rw [ofItems, ofItems]
    exact .ok p
  | cons item items =>
    rw [ofItems, ofItems]
    apply (ofItem_follows lookups compares depths item scope context depth combinator index).bind
    intro q
    exact ofItems_follows lookups compares depths items scope context depth combinator (index + 1)
      (combinator.join p q)
termination_by structural items

end

theorem convert_follows (lookups : LookupsFollow d c c')
    (compares : ComparesFollow d limits limits') (depths : DepthsFollow d limits limits')
    (rootType : String) (criteria : List (String × Json)) :
    Follows d.errors (convert c limits rootType criteria)
      (convert c' limits' rootType criteria) := by
  unfold convert
  apply ((lookups.root rootType).within {}).bind
  intro scope
  apply (depths.checkMembers {} 0 criteria).bind
  intro _
  exact ofMembers_follows lookups compares depths criteria scope {} 0 .all

/-! ## Orderings -/

mutual

theorem sortKeysOfMembers_follows (lookups : LookupsFollow d c c') (direction : String)
    (members : List (String × Json)) (scope : Scope) (context : ContextPath) :
    Follows d.errors (sortKeysOfMembers c direction scope context members)
      (sortKeysOfMembers c' direction scope context members) := by
  cases members with
  | nil =>
    rw [sortKeysOfMembers, sortKeysOfMembers]
    exact .refl _
  | cons m members =>
    obtain ⟨name, value⟩ := m
    rw [sortKeysOfMembers, sortKeysOfMembers]
    apply (sortKeysOfField_follows lookups direction value scope (context.push name) name).bind
    intro first
    apply (sortKeysOfMembers_follows lookups direction members scope context).bind
    intro others
    exact .refl _
termination_by structural members

theorem sortKeysOfField_follows (lookups : LookupsFollow d c c') (direction : String)
    (value : Json) (scope : Scope) (context : ContextPath) (name : String) :
    Follows d.errors (sortKeysOfField c direction scope context name value)
      (sortKeysOfField c' direction scope context name value) := by
  cases value with
  | object members =>
    rw [sortKeysOfField, sortKeysOfField]
    apply ((lookups.field scope name).within context).bind
    intro found
    cases found with
    | attr a => exact .refl _
    | relationship target =>
      exact sortKeysOfMembers_follows lookups direction members target context
  | _ =>
    rw [sortKeysOfField.eq_def, sortKeysOfField.eq_def]
    exact .refl _
termination_by structural value

end

theorem orderBy_follows (lookups : LookupsFollow d c c') (direction rootType : String)
    (criteria : List (String × Json)) :
    Follows d.errors (orderBy c direction rootType criteria)
      (orderBy c' direction rootType criteria) := by
  unfold orderBy
  apply ((lookups.root rootType).within {}).bind
  intro scope
  apply (sortKeysOfMembers_follows lookups direction criteria scope {}).bind
  intro keys
  exact .refl _

end Criteria.Structural
