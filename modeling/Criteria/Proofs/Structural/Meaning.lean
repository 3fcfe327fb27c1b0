import Criteria.Proofs.Language.Meaning
import Criteria.Proofs.Structural.Steps

/-! # The meaning of structural criteria

Criteria are read as they stand: an object holds where all of its entries hold, a combinator joins
the items of its list, an existence test is about the chain of relationships that leads to it, and
all operators on an attribute have to hold. The predicate of criteria means the same
(`convert_holds`).
-/

set_option autoImplicit false

namespace Criteria.Structural

variable {Entity : Type} (I : Interpretation Entity) (c : Catalog) (limits : Limits)

mutual

/-- Whether the operators and functions on an attribute hold at an entity, apart from keys that
belong to the function around them. -/
def OperatorsHold (a : AttributeRef) (skipped : List String) :
    List (String × Json) → Entity → Prop
  | [], _ => True
  | (name, parameter) :: members, x =>
    (name ∉ skipped →
      match a.valueType.resolveOperator name with
      | .ok (.compare comparator, _) =>
        ResultHolds I (a.compare limits comparator (argumentOf parameter)) x
      | .ok (.function function, _) => FunctionHolds a function parameter x
      | .error _ => False) ∧
      OperatorsHold a skipped members x
termination_by structural members => members

/-- Whether the criteria on a function of an attribute hold. -/
def FunctionHolds (a : AttributeRef) (name : FunctionName) (parameter : Json) (x : Entity) :
    Prop :=
  match parameter with
  | .object members =>
    match functionOf name members (.object members) with
    | .ok (function, skipped) => OperatorsHold (.derived function a) skipped members x
    | .error _ => False
  | _ => False
termination_by structural parameter

end

mutual

/-- Whether all entries of an object hold at an entity. -/
def MembersHold (scope : Scope) : List (String × Json) → Entity → Prop
  | [], _ => True
  | (key, value) :: members, x =>
    EntryHolds scope (.ofText key) value x ∧ MembersHold scope members x
termination_by structural members => members

/-- Whether the entry of a key holds. -/
def EntryHolds (scope : Scope) (key : Key) (value : Json) (x : Entity) : Prop :=
  match value with
  | .array items =>
    match key with
    | .combinator .conjunction => EveryItemHolds scope items x
    | .combinator .disjunction => SomeItemHolds scope items x
    | _ => False
  | .object members =>
    match key with
    | .combinator _ => False
    | .existence test =>
      match scope.relationshipPath? with
      | some relationship => I.Tests test relationship (MembersHold scope.rebase members) x
      | none => False
    | .field name =>
      match c.field scope name with
      | .ok (.attr a) => OperatorsHold I limits a [] members x
      | .ok (.relationship target) => MembersHold target members x
      | .error _ => False
  | _ => False
termination_by structural value

/-- Whether the criteria in a list hold. -/
def ItemHolds (scope : Scope) (item : Json) (x : Entity) : Prop :=
  match item with
  | .object members => MembersHold scope members x
  | _ => False
termination_by structural item

/-- Whether all criteria of a list hold. -/
def EveryItemHolds (scope : Scope) : List Json → Entity → Prop
  | [], _ => True
  | item :: items, x => ItemHolds scope item x ∧ EveryItemHolds scope items x
termination_by structural items => items

/-- Whether one of the criteria in a list holds. -/
def SomeItemHolds (scope : Scope) : List Json → Entity → Prop
  | [], _ => False
  | item :: items, x => ItemHolds scope item x ∨ SomeItemHolds scope items x
termination_by structural items => items

end

variable {I c limits}

/-! ## Combinators -/

/-- How a combinator connects what its items say. -/
def Combinator.connect : Combinator → Prop → Prop → Prop
  | conjunction => And
  | disjunction => Or

theorem Combinator.connect_assoc (combinator : Combinator) (P Q R : Prop) :
    combinator.connect (combinator.connect P Q) R ↔
      combinator.connect P (combinator.connect Q R) := by
  cases combinator with
  | conjunction => exact and_assoc
  | disjunction => exact or_assoc

theorem Combinator.holds_join (combinator : Combinator) (p q : Predicate) (x : Entity) :
    (combinator.join p q).Holds I x ↔ combinator.connect (p.Holds I x) (q.Holds I x) := by
  cases combinator with
  | conjunction => exact Predicate.holds_and
  | disjunction => exact Predicate.holds_or

section

variable (combinator : Combinator) (scope : Scope) (x : Entity)

/-- A list without items adds nothing. -/
theorem connect_entryHolds_nil (P : Prop) :
    combinator.connect P (EntryHolds I c limits scope (.combinator combinator) (.array []) x) ↔
      P := by
  cases combinator with
  | conjunction =>
    rw [EntryHolds, EveryItemHolds]
    exact and_iff_left trivial
  | disjunction =>
    rw [EntryHolds, SomeItemHolds]
    exact or_iff_left not_false

theorem entryHolds_cons (item : Json) (items : List Json) :
    EntryHolds I c limits scope (.combinator combinator) (.array (item :: items)) x ↔
      combinator.connect (ItemHolds I c limits scope item x)
        (EntryHolds I c limits scope (.combinator combinator) (.array items) x) := by
  cases combinator with
  | conjunction =>
    rw [EntryHolds, EntryHolds, EveryItemHolds]
    exact Iff.rfl
  | disjunction =>
    rw [EntryHolds, EntryHolds, SomeItemHolds]
    exact Iff.rfl

end

/-! ## Operators -/

mutual

theorem ofOperators_holds : ∀ (members : List (String × Json)) {a : AttributeRef}
    {context : ContextPath} {depth : Nat} {skipped : List String} {p q : Predicate},
    ofOperators limits a context depth skipped p members = .ok q →
      ∀ x, q.Holds I x ↔ p.Holds I x ∧ OperatorsHold I limits a skipped members x
  | [], a, context, depth, skipped, p, q, h, x => by
    rw [ofOperators] at h
    cases h
    rw [OperatorsHold, and_true]
  | (name, parameter) :: members, a, context, depth, skipped, p, q, h, x => by
    rw [OperatorsHold]
    rcases ofOperators_cons_eq_ok.1 h with ⟨hskipped, h⟩ | ⟨hskipped, r, hr, h⟩
    · rw [ofOperators_holds members h]
      simp [hskipped]
    · rw [ofOperators_holds members h, Predicate.holds_and]
      simp only [hskipped, not_false_eq_true, forall_const, and_assoc]
      cases hr with
      | compare offered compared =>
        rw [offered, ← resultHolds_iff compared]
      | function offered applied =>
        rw [offered, ofFunction_holds parameter applied]

theorem ofFunction_holds (parameter : Json) {a : AttributeRef} {context : ContextPath}
    {depth : Nat} {name : FunctionName} {p : Predicate}
    (h : ofFunction limits a context depth name parameter = .ok p) (x : Entity) :
    p.Holds I x ↔ FunctionHolds I limits a name parameter x := by
  cases parameter with
  | object members =>
    obtain ⟨-, function, skipped, derived, hfunction, hderived, -, h⟩ :=
      ofFunction_object_eq_ok.1 h
    obtain ⟨-, -, rfl⟩ := AttributeRef.apply_iff.1 hderived
    rw [ofOperators_holds members h, FunctionHolds, hfunction, Predicate.Holds, true_and]
  | _ =>
    obtain ⟨members, heq⟩ := exists_object_of_ofFunction h
    cases heq

end

/-! ## Entries -/

mutual

theorem ofMembers_holds (members : List (String × Json)) {scope : Scope} {context : ContextPath}
    {depth : Nat} {p q : Predicate} (h : ofMembers c limits scope context depth p members = .ok q)
    (x : Entity) : q.Holds I x ↔ p.Holds I x ∧ MembersHold I c limits scope members x := by
  cases members with
  | nil =>
    rw [ofMembers] at h
    cases h
    rw [MembersHold, and_true]
  | cons m members =>
    obtain ⟨key, value⟩ := m
    obtain ⟨r, hr, h⟩ := ofMembers_cons_eq_ok.1 h
    rw [ofMembers_holds members h, Predicate.holds_and, ofEntry_holds value hr, MembersHold,
      and_assoc]

theorem ofEntry_holds (value : Json) {scope : Scope} {context : ContextPath} {depth : Nat}
    {key : Key} {p : Predicate} (h : ofEntry c limits scope context depth key value = .ok p)
    (x : Entity) : p.Holds I x ↔ EntryHolds I c limits scope key value x := by
  cases value with
  | array items =>
    cases items with
    | nil =>
      rw [ofEntry.eq_def] at h
      cases h
    | cons item items =>
      obtain ⟨combinator, q, rfl, hq, h⟩ := ofEntry_items_eq_ok.1 h
      -- The predicate of the first item is what the others are joined to.
      rw [entryHolds_cons, ofItems_holds items h, ofItem_holds item hq]
  | object members =>
    cases ofEntry_object_eq_ok.1 h with
    | bare chain empty =>
      rw [EntryHolds, chain, empty]
      refine Interpretation.tests_congr ?_ x
      intro y
      rw [Predicate.FilterHolds, MembersHold]
    | filtered chain nonempty admitted inner =>
      rw [EntryHolds, chain]
      refine Interpretation.tests_congr ?_ x
      intro y
      rw [Predicate.FilterHolds, ofMembers_holds members inner, Predicate.Holds, true_and]
    | attr nonempty found depth_le inner =>
      rw [EntryHolds, found]
      dsimp only
      rw [ofOperators_holds members inner, Predicate.Holds, true_and]
    | relationship nonempty found admitted inner =>
      rw [EntryHolds, found]
      dsimp only
      rw [ofMembers_holds members inner, Predicate.Holds, true_and]
  | _ =>
    rw [ofEntry.eq_def] at h
    cases h

theorem ofItem_holds (item : Json) {scope : Scope} {context : ContextPath} {depth : Nat}
    {combinator : Combinator} {index : Nat} {p : Predicate}
    (h : ofItem c limits scope context depth combinator index item = .ok p) (x : Entity) :
    p.Holds I x ↔ ItemHolds I c limits scope item x := by
  cases item with
  | object members =>
    obtain ⟨-, h⟩ := ofItem_object_eq_ok.1 h
    rw [ofMembers_holds members h, ItemHolds, Predicate.Holds, true_and]
  | _ =>
    rw [ofItem.eq_def] at h
    cases h

theorem ofItems_holds (items : List Json) {scope : Scope} {context : ContextPath}
    {depth index : Nat} {combinator : Combinator} {p q : Predicate}
    (h : ofItems c limits scope context depth combinator index p items = .ok q) (x : Entity) :
    q.Holds I x ↔ combinator.connect (p.Holds I x)
      (EntryHolds I c limits scope (.combinator combinator) (.array items) x) := by
  cases items with
  | nil =>
    rw [ofItems] at h
    cases h
    rw [connect_entryHolds_nil]
  | cons item items =>
    obtain ⟨r, hr, h⟩ := ofItems_cons_eq_ok.1 h
    rw [ofItems_holds items h, combinator.holds_join, ofItem_holds item hr,
      combinator.connect_assoc, entryHolds_cons]

end

/-- The predicate of criteria means what the criteria mean. -/
theorem convert_holds {rootType : String} {criteria : List (String × Json)} {p : Predicate}
    (h : convert c limits rootType criteria = .ok p) (x : Entity) :
    p.Holds I x ↔ MembersHold I c limits (Scope.root rootType) criteria x := by
  obtain ⟨-, -, h⟩ := convert_eq_ok.1 h
  rw [ofMembers_holds criteria h, Predicate.Holds, true_and]

end Criteria.Structural
