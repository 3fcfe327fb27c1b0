import Criteria.Proofs.Json.Bounded
import Criteria.Proofs.Predicate.Kept
import Criteria.Proofs.Structural.Steps

/-! # Predicates of structural criteria

A property that building predicates keeps holds of the predicate of all criteria whose numbers
are such as a document holds (`Structural.convert_kept`).
-/

set_option autoImplicit false

namespace Criteria

open Number

/-! ## Literals of documents -/

theorem Literal.ofNumeric_finite {n : Json.Numeric} (h : (Json.number n).Bounded) :
    (Literal.ofNumeric n).Finite := by
  cases h with
  | @integer n lower upper =>
    unfold ofNumeric
    dsimp only
    split
    · exact trivial
    · have hbound : n.natAbs ≤ 2 ^ 64 := by omega
      exact Binary.isFinite_ofInt (by decide) hbound (by decide)
  | double finite => exact finite

theorem Literal.ofItems?_finite {items : List Json} (h : ∀ item ∈ items, item.Bounded)
    {literals : List Literal} (hitems : Literal.ofItems? items = some literals) {x : Double}
    (hx : Literal.float x ∈ literals) : x.isFinite = true := by
  induction items generalizing literals with
  | nil =>
    cases hitems
    cases hx
  | cons item items ih =>
    simp only [ofItems?, Option.bind_eq_bind, Option.bind_eq_some_iff] at hitems
    obtain ⟨first, hfirst, others, hothers, heq⟩ := hitems
    cases heq
    rcases List.mem_cons.1 hx with rfl | hx
    · have hbounded := h item List.mem_cons_self
      cases item with
      | number n =>
        have hnumeric : ofNumeric n = float x := Option.some.inj hfirst
        have hfinite := ofNumeric_finite hbounded
        rw [hnumeric] at hfinite
        exact hfinite
      | array inner =>
        obtain ⟨_, _, heq⟩ := Option.map_eq_some_iff.1 hfirst
        cases heq
      | _ => cases hfirst
    · exact ih (fun i hi => h i (List.mem_cons_of_mem _ hi)) hothers hx

theorem Literal.ofJson?_finite {j : Json} (h : j.Bounded) {l : Literal}
    (hl : Literal.ofJson? j = some l) : l.Finite := by
  cases h with
  | integer lower upper =>
    cases hl
    exact ofNumeric_finite (.integer lower upper)
  | double finite =>
    cases hl
    exact finite
  | array inner =>
    obtain ⟨literals, hliterals, rfl⟩ := Option.map_eq_some_iff.1 hl
    exact fun x hx => ofItems?_finite inner hliterals hx
  | object inner => cases hl
  | _ =>
    cases hl
    exact trivial

namespace Structural

theorem argumentOf_finite {parameter : Json} (h : parameter.Bounded) :
    (argumentOf parameter).Finite := by
  unfold argumentOf
  split
  · exact trivial
  · split
    · rename_i hl
      exact Literal.ofJson?_finite h hl
    · exact trivial

section

variable {c : Catalog} {limits : Limits} {Name : String → Prop} {P : String → Predicate → Prop}
  {root : String}

/-! ## Attributes -/

/-- Operators applied to an attribute keep the property, given that the functions below them
do. -/
theorem ofOperators_kept (k : Predicate.Kept c limits Name P) {a : AttributeRef}
    {context : ContextPath} {depth : Nat} {skipped : List String} {members : List (String × Json)}
    (hbounded : ∀ m ∈ members, m.2.Bounded)
    (hfunctions : ∀ m ∈ members, ∀ name p,
      ofFunction limits a context depth name m.2 = .ok p → P root p)
    (ha : a.WellTyped c root ∧ a.Named Name) {p q : Predicate} (hp : P root p)
    (h : ofOperators limits a context depth skipped p members = .ok q) : P root q := by
  induction members generalizing p with
  | nil =>
    rw [ofOperators] at h
    cases h
    exact hp
  | cons m members ih =>
    obtain ⟨name, parameter⟩ := m
    have ih := @ih (fun m hm => hbounded m (List.mem_cons_of_mem _ hm))
      (fun m hm => hfunctions m (List.mem_cons_of_mem _ hm))
    rcases ofOperators_cons_eq_ok.1 h with ⟨-, h⟩ | ⟨-, r, hr, h⟩
    · exact ih hp h
    · refine ih (k.and hp ?_) h
      cases hr with
      | compare offered compared =>
        have hfinite := argumentOf_finite (hbounded (name, parameter) List.mem_cons_self)
        exact k.outcome ha.2 (AttributeRef.compare_wellTyped ha.1 hfinite compared)
      | function offered applied =>
        exact hfunctions (name, parameter) List.mem_cons_self _ r applied

/-- A function of an attribute keeps the property. -/
theorem ofFunction_kept (k : Predicate.Kept c limits Name P) {parameter : Json}
    (hbounded : parameter.Bounded) {a : AttributeRef} (ha : a.WellTyped c root ∧ a.Named Name)
    {context : ContextPath} {depth : Nat} {name : FunctionName} {p : Predicate}
    (h : ofFunction limits a context depth name parameter = .ok p) : P root p := by
  induction hbounded generalizing a depth name p with
  | object inner ih =>
    obtain ⟨-, function, skipped, derived, -, hderived, -, h⟩ := ofFunction_object_eq_ok.1 h
    obtain ⟨rfl, htyped⟩ := AttributeRef.apply_wellTyped ha.1 hderived
    have hnamed : AttributeRef.Named Name (.derived function a) := ha.2
    exact ofOperators_kept k inner (fun m hm name p hp => ih m hm ⟨htyped, hnamed⟩ hp)
      ⟨htyped, hnamed⟩ (k.all root) h
  | _ =>
    obtain ⟨members, heq⟩ := exists_object_of_ofFunction h
    cases heq

end

/-! ## Entries -/

section

variable {c : Catalog} {limits : Limits} {Name : String → Prop} {P : String → Predicate → Prop}

/-- Every entry with the value, and the value as an item, keeps the property. -/
def ValueKept (c : Catalog) (limits : Limits) (Name : String → Prop)
    (P : String → Predicate → Prop) (value : Json) : Prop :=
  ∀ (scope : Scope) (context : ContextPath) (depth : Nat), scope.Reached c Name →
    (∀ key p, ofEntry c limits scope context depth key value = .ok p → P scope.rootType p) ∧
      ∀ combinator index p, ofItem c limits scope context depth combinator index value = .ok p →
        P scope.rootType p

theorem ofMembers_kept (k : Predicate.Kept c limits Name P) {members : List (String × Json)}
    (hmembers : ∀ m ∈ members, ValueKept c limits Name P m.2) {scope : Scope}
    (hs : scope.Reached c Name) {context : ContextPath} {depth : Nat} {p q : Predicate}
    (hp : P scope.rootType p) (h : ofMembers c limits scope context depth p members = .ok q) :
    P scope.rootType q := by
  induction members generalizing p with
  | nil =>
    rw [ofMembers] at h
    cases h
    exact hp
  | cons m members ih =>
    obtain ⟨key, value⟩ := m
    obtain ⟨r, hr, h⟩ := ofMembers_cons_eq_ok.1 h
    have hvalue := hmembers (key, value) List.mem_cons_self scope context depth hs
    exact ih (fun m hm => hmembers m (List.mem_cons_of_mem _ hm)) (k.and hp (hvalue.1 _ r hr)) h

theorem ofItems_kept (k : Predicate.Kept c limits Name P) {items : List Json}
    (hitems : ∀ item ∈ items, ValueKept c limits Name P item) {scope : Scope}
    (hs : scope.Reached c Name) {context : ContextPath} {depth : Nat} {combinator : Combinator}
    {index : Nat} {p q : Predicate} (hp : P scope.rootType p)
    (h : ofItems c limits scope context depth combinator index p items = .ok q) :
    P scope.rootType q := by
  induction items generalizing index p with
  | nil =>
    rw [ofItems] at h
    cases h
    exact hp
  | cons item items ih =>
    obtain ⟨r, hr, h⟩ := ofItems_cons_eq_ok.1 h
    have hitem := hitems item List.mem_cons_self scope context depth hs
    refine ih (fun i hi => hitems i (List.mem_cons_of_mem _ hi)) ?_ h
    cases combinator with
    | conjunction => exact k.and hp (hitem.2 _ _ r hr)
    | disjunction => exact k.or hp (hitem.2 _ _ r hr)

/-- The entry of a key whose value is an object keeps the property, given that the entries of the
object do. -/
theorem enters_kept (k : Predicate.Kept c limits Name P) (hnamed : c.Named Name)
    {members : List (String × Json)} (hbounded : ∀ m ∈ members, m.2.Bounded)
    (hmembers : ∀ m ∈ members, ValueKept c limits Name P m.2) {scope : Scope}
    (hs : scope.Reached c Name) {context : ContextPath} {depth : Nat} {key : Key} {p : Predicate}
    (h : Enters c limits scope context depth members key p) : P scope.rootType p := by
  cases h with
  | bare chain empty =>
    obtain ⟨hne, rfl⟩ := Scope.relationshipPath?_eq_some.1 chain
    obtain ⟨htyped, hnames⟩ := hs.relationshipPath hne
    exact k.existence htyped hnames (by simp)
  | filtered chain nonempty admitted inner =>
    obtain ⟨hne, rfl⟩ := Scope.relationshipPath?_eq_some.1 chain
    obtain ⟨htyped, hnames⟩ := hs.relationshipPath hne
    refine k.existence htyped hnames ?_
    intro q hq
    cases hq
    -- The filter is about the target type, so the scope starts again there.
    exact ofMembers_kept k hmembers (Scope.Reached.root _) (k.all _) inner
  | attr nonempty found depth_le inner =>
    rcases Catalog.field_iff.1 found with ⟨a, ha, heq⟩ | ⟨-, r, hr, heq⟩ <;> cases heq
    have hreference := hs.reference ha (hnamed.attr ha)
    exact ofOperators_kept k hbounded
      (fun m hm name q hq => ofFunction_kept k (hbounded m hm) hreference hq) hreference
      (k.all _) inner
  | relationship nonempty found admitted inner =>
    rcases Catalog.field_iff.1 found with ⟨a, ha, heq⟩ | ⟨-, r, hr, heq⟩ <;> cases heq
    exact ofMembers_kept k hmembers (hs.enter hr (hnamed.relationship hr)) (k.all _) inner

theorem valueKept (k : Predicate.Kept c limits Name P) (hnamed : c.Named Name) {value : Json}
    (hbounded : value.Bounded) : ValueKept c limits Name P value := by
  induction hbounded with
  | @array items inner ih =>
    intro scope context depth hs
    constructor
    · intro key p h
      cases items with
      | nil =>
        rw [ofEntry.eq_def] at h
        cases h
      | cons item items =>
        obtain ⟨combinator, q, -, hq, h⟩ := ofEntry_items_eq_ok.1 h
        have hitem := ih item List.mem_cons_self scope context depth hs
        exact ofItems_kept k (fun i hi => ih i (List.mem_cons_of_mem _ hi)) hs
          (hitem.2 _ _ q hq) h
    · intro combinator index p h
      cases h
  | @object members inner ih =>
    intro scope context depth hs
    constructor
    · intro key p h
      exact enters_kept k hnamed inner ih hs (ofEntry_object_eq_ok.1 h)
    · intro combinator index p h
      exact ofMembers_kept k ih hs (k.all _) (ofItem_object_eq_ok.1 h).2
  | _ =>
    intro scope context depth hs
    constructor
    · intro key p h
      rw [ofEntry.eq_def] at h
      cases h
    · intro combinator index p h
      rw [ofItem.eq_def] at h
      cases h

/-- The predicate of criteria has every property that building predicates keeps. -/
theorem convert_kept (k : Predicate.Kept c limits Name P) (hnamed : c.Named Name)
    {criteria : List (String × Json)} (hbounded : ∀ m ∈ criteria, m.2.Bounded) {rootType : String}
    {p : Predicate} (h : convert c limits rootType criteria = .ok p) : P rootType p :=
  ofMembers_kept k (fun m hm => valueKept k hnamed (hbounded m hm)) (Scope.Reached.root rootType)
    (k.all rootType) (convert_eq_ok.1 h).2.2

end

end Structural

end Criteria
