import Criteria.Proofs.Schema.Resolution
import Criteria.Structural.Convert

/-! # Steps of the conversion

What one operator on an attribute and what one object of criteria is converted to, as relations
with a constructor for each way the conversion can go (`Operates`, `Enters`), and the equivalences
that put them in place of the conversion.
-/

set_option autoImplicit false

namespace Criteria.Structural

theorem within_eq_ok {α : Type} {context : ContextPath} {r : Except Rejection α} {a : α} :
    within context r = .ok a ↔ r = .ok a := by
  cases r <;> simp [within]

theorem argumentOf_of_ne {v : Json} (h : v ≠ .object []) :
    argumentOf v = match Literal.ofJson? v with
      | some l => .value l
      | none => .unsupported v.compact := by
  unfold argumentOf
  split
  · exact absurd rfl h
  · rfl

section

variable {c : Catalog} {limits : Limits} {scope : Scope} {a : AttributeRef}
  {context : ContextPath} {depth : Nat} {p q : Predicate}

/-! ## Checks -/

theorem checkDepth_eq_ok {u : Unit} :
    checkDepth limits context depth = .ok u ↔ depth ≤ limits.maxDepth := by
  unfold checkDepth
  by_cases h : limits.maxDepth < depth
  · simp [h]
  · simp [h, Nat.not_lt.1 h]

/-- Criteria at a depth within the limit that do not mix combinators with other keys. -/
structure Admitted (limits : Limits) (depth : Nat) (members : List (String × Json)) : Prop where
  depth_le : depth ≤ limits.maxDepth
  pure : mixesCombinators members = false

theorem checkMembers_eq_ok {members : List (String × Json)} {u : Unit} :
    checkMembers limits context depth members = .ok u ↔ Admitted limits depth members := by
  simp only [checkMembers, bind_eq_ok, checkDepth_eq_ok]
  constructor
  · rintro ⟨-, hdepth, h⟩
    split at h
    · cases h
    · rename_i hpure
      exact ⟨hdepth, by simpa using hpure⟩
  · rintro ⟨hdepth, hpure⟩
    exact ⟨(), hdepth, by rw [hpure]; rfl⟩

/-! ## Operators -/

/-- What an operator of the given name and its parameter, or a function and the criteria on what it
derives, are converted to. -/
inductive Operates (limits : Limits) (a : AttributeRef) (context : ContextPath) (depth : Nat)
    (name : String) (parameter : Json) : Predicate → Prop
  | compare {comparator : Comparator} {arity : Arity} {r : Predicate}
      (offered : a.valueType.resolveOperator name = .ok (.compare comparator, arity))
      (compared : a.compare limits comparator (argumentOf parameter) = .ok r) :
      Operates limits a context depth name parameter r
  | function {function : FunctionName} {arity : Arity} {r : Predicate}
      (offered : a.valueType.resolveOperator name = .ok (.function function, arity))
      (applied : ofFunction limits a context depth function parameter = .ok r) :
      Operates limits a context depth name parameter r

theorem ofOperators_cons_eq_ok {skipped : List String} {name : String} {parameter : Json}
    {members : List (String × Json)} :
    ofOperators limits a context depth skipped p ((name, parameter) :: members) = .ok q ↔
      name ∈ skipped ∧ ofOperators limits a context depth skipped p members = .ok q ∨
      name ∉ skipped ∧ ∃ r, Operates limits a context depth name parameter r ∧
        ofOperators limits a context depth skipped (p.and r) members = .ok q := by
  rw [ofOperators]
  by_cases hskipped : name ∈ skipped
  · simp only [hskipped, if_true, true_and, not_true, false_and, or_false]
  · simp only [hskipped, if_false, false_and, false_or, not_false_eq_true, true_and, bind_eq_ok,
      within_eq_ok]
    constructor
    · rintro ⟨⟨operator, arity⟩, hoperator, h⟩
      cases operator with
      | compare comparator =>
        obtain ⟨r, hr, h⟩ := bind_eq_ok.1 h
        exact ⟨r, .compare hoperator (within_eq_ok.1 hr), h⟩
      | function function =>
        obtain ⟨r, hr, h⟩ := bind_eq_ok.1 h
        exact ⟨r, .function hoperator hr, h⟩
    · rintro ⟨r, hr, h⟩
      cases hr with
      | compare offered compared =>
        exact ⟨_, offered, bind_eq_ok.2 ⟨r, within_eq_ok.2 compared, h⟩⟩
      | function offered applied => exact ⟨_, offered, bind_eq_ok.2 ⟨r, applied, h⟩⟩

theorem ofFunction_object_eq_ok {name : FunctionName} {members : List (String × Json)} :
    ofFunction limits a context depth name (.object members) = .ok p ↔
      members ≠ [] ∧ ∃ function skipped derived,
        functionOf name members (.object members) = .ok (function, skipped) ∧
        a.apply function = .ok derived ∧ depth + 1 ≤ limits.maxDepth ∧
        ofOperators limits derived context (depth + 1) skipped .all members = .ok p := by
  rw [ofFunction]
  by_cases hempty : members = []
  · simp [hempty]
  · have hnonempty : members.isEmpty = false := by simpa using hempty
    simp only [hnonempty, Bool.false_eq_true, if_false, bind_eq_ok, within_eq_ok, checkDepth_eq_ok]
    constructor
    · rintro ⟨⟨function, skipped⟩, hfunction, derived, hderived, -, hdepth, h⟩
      exact ⟨hempty, function, skipped, derived, hfunction, hderived, hdepth, h⟩
    · rintro ⟨-, function, skipped, derived, hfunction, hderived, hdepth, h⟩
      exact ⟨_, hfunction, derived, hderived, (), hdepth, h⟩

/-- Only on an object of criteria a function is converted. -/
theorem exists_object_of_ofFunction {name : FunctionName} {parameter : Json}
    (h : ofFunction limits a context depth name parameter = .ok p) :
    ∃ members, parameter = .object members := by
  cases parameter with
  | object members => exact ⟨members, rfl⟩
  | array items =>
    rw [ofFunction.eq_def] at h
    cases items <;> cases h
  | _ =>
    rw [ofFunction.eq_def] at h
    cases h

/-! ## Entries -/

/-- What the entry of a key is converted to if its value is an object. -/
inductive Enters (c : Catalog) (limits : Limits) (scope : Scope) (context : ContextPath)
    (depth : Nat) (members : List (String × Json)) : Key → Predicate → Prop
  | bare {test : Existence} {relationship : RelationshipPath}
      (chain : scope.relationshipPath? = some relationship) (empty : members = []) :
      Enters c limits scope context depth members (.existence test)
        (.existence test relationship none)
  | filtered {test : Existence} {relationship : RelationshipPath} {filter : Predicate}
      (chain : scope.relationshipPath? = some relationship) (nonempty : members ≠ [])
      (admitted : Admitted limits (depth + 1) members)
      (inner : ofMembers c limits scope.rebase {} (depth + 1) .all members = .ok filter) :
      Enters c limits scope context depth members (.existence test)
        (.existence test relationship (some filter))
  | attr {name : String} {a : AttributeRef} {p : Predicate} (nonempty : members ≠ [])
      (found : c.field scope name = .ok (.attr a)) (depth_le : depth + 1 ≤ limits.maxDepth)
      (inner : ofOperators limits a (context.push name) (depth + 1) [] .all members = .ok p) :
      Enters c limits scope context depth members (.field name) p
  | relationship {name : String} {target : Scope} {p : Predicate} (nonempty : members ≠ [])
      (found : c.field scope name = .ok (.relationship target))
      (admitted : Admitted limits (depth + 1) members)
      (inner : ofMembers c limits target (context.push name) (depth + 1) .all members = .ok p) :
      Enters c limits scope context depth members (.field name) p

/-- The conversion of an entry is the relation of its key to the predicate. -/
theorem ofEntry_object_eq_ok {key : Key} {members : List (String × Json)} :
    ofEntry c limits scope context depth key (.object members) = .ok p ↔
      Enters c limits scope context depth members key p := by
  rw [ofEntry.eq_def]
  dsimp only
  constructor
  · intro h
    cases key with
    | combinator combinator => cases h
    | existence test =>
      dsimp only at h
      split at h
      · cases h
      · rename_i relationship hchain
        split at h
        · rename_i hempty
          cases h
          exact .bare hchain (List.isEmpty_iff.1 hempty)
        · rename_i hnonempty
          simp only [bind_eq_ok, checkMembers_eq_ok] at h
          obtain ⟨-, hadmitted, filter, hfilter, h⟩ := h
          cases h
          exact .filtered hchain (by simpa using hnonempty) hadmitted hfilter
    | field name =>
      dsimp only at h
      split at h
      · cases h
      · rename_i hnonempty
        obtain ⟨found, hfound, h⟩ := bind_eq_ok.1 h
        rw [within_eq_ok] at hfound
        cases found with
        | attr a =>
          simp only [bind_eq_ok, checkDepth_eq_ok] at h
          obtain ⟨-, hdepth, h⟩ := h
          exact .attr (by simpa using hnonempty) hfound hdepth h
        | relationship target =>
          simp only [bind_eq_ok, checkMembers_eq_ok] at h
          obtain ⟨-, hadmitted, h⟩ := h
          exact .relationship (by simpa using hnonempty) hfound hadmitted h
  · intro h
    cases h with
    | bare chain empty =>
      dsimp only
      rw [chain, empty]
      rfl
    | filtered chain nonempty admitted inner =>
      dsimp only
      rw [chain]
      dsimp only
      rw [if_neg (by simpa using nonempty)]
      simp only [bind_eq_ok, checkMembers_eq_ok]
      exact ⟨(), admitted, _, inner, rfl⟩
    | attr nonempty found depth_le inner =>
      dsimp only
      rw [if_neg (by simpa using nonempty)]
      refine bind_eq_ok.2 ⟨_, within_eq_ok.2 found, ?_⟩
      simp only [bind_eq_ok, checkDepth_eq_ok]
      exact ⟨(), depth_le, inner⟩
    | relationship nonempty found admitted inner =>
      dsimp only
      rw [if_neg (by simpa using nonempty)]
      refine bind_eq_ok.2 ⟨_, within_eq_ok.2 found, ?_⟩
      simp only [bind_eq_ok, checkMembers_eq_ok]
      exact ⟨(), admitted, inner⟩

/-- Lists belong to combinators. The first item is not joined to anything. -/
theorem ofEntry_items_eq_ok {key : Key} {item : Json} {items : List Json} :
    ofEntry c limits scope context depth key (.array (item :: items)) = .ok p ↔
      ∃ combinator q, key = .combinator combinator ∧
        ofItem c limits scope context depth combinator 0 item = .ok q ∧
        ofItems c limits scope context depth combinator 1 q items = .ok p := by
  rw [ofEntry.eq_def]
  cases key with
  | combinator combinator =>
    dsimp only
    rw [bind_eq_ok]
    constructor
    · rintro ⟨q, hitem, hitems⟩
      exact ⟨combinator, q, rfl, hitem, hitems⟩
    · rintro ⟨combinator', q, heq, hitem, hitems⟩
      cases heq
      exact ⟨q, hitem, hitems⟩
  | _ =>
    constructor
    · intro h
      cases h
    · rintro ⟨combinator, q, heq, -⟩
      cases heq

theorem ofItem_object_eq_ok {combinator : Combinator} {index : Nat}
    {members : List (String × Json)} :
    ofItem c limits scope context depth combinator index (.object members) = .ok p ↔
      Admitted limits (depth + 1) members ∧
        ofMembers c limits scope (context.push s!"{combinator.key}[{index}]") (depth + 1) .all
          members = .ok p := by
  simp only [ofItem, bind_eq_ok, checkMembers_eq_ok]
  constructor
  · rintro ⟨-, hadmitted, h⟩
    exact ⟨hadmitted, h⟩
  · rintro ⟨hadmitted, h⟩
    exact ⟨(), hadmitted, h⟩

theorem ofMembers_cons_eq_ok {key : String} {value : Json} {members : List (String × Json)} :
    ofMembers c limits scope context depth p ((key, value) :: members) = .ok q ↔
      ∃ r, ofEntry c limits scope context depth (.ofText key) value = .ok r ∧
        ofMembers c limits scope context depth (p.and r) members = .ok q := by
  rw [ofMembers, bind_eq_ok]

theorem ofItems_cons_eq_ok {combinator : Combinator} {index : Nat} {item : Json}
    {items : List Json} :
    ofItems c limits scope context depth combinator index p (item :: items) = .ok q ↔
      ∃ r, ofItem c limits scope context depth combinator index item = .ok r ∧
        ofItems c limits scope context depth combinator (index + 1) (combinator.join p r) items
          = .ok q := by
  rw [ofItems, bind_eq_ok]

/-- The criteria of a type that the catalog has, as the entries of an object. -/
theorem convert_eq_ok {rootType : String} {criteria : List (String × Json)} :
    convert c limits rootType criteria = .ok p ↔
      (∃ entity, c.entity? rootType = some entity) ∧ Admitted limits 0 criteria ∧
        ofMembers c limits (Scope.root rootType) {} 0 .all criteria = .ok p := by
  simp only [convert, bind_eq_ok, within_eq_ok, Catalog.root_iff, checkMembers_eq_ok]
  constructor
  · rintro ⟨scope, ⟨hentity, rfl⟩, -, hadmitted, h⟩
    exact ⟨hentity, hadmitted, h⟩
  · rintro ⟨hentity, hadmitted, h⟩
    exact ⟨_, ⟨hentity, rfl⟩, (), hadmitted, h⟩

end

end Criteria.Structural
