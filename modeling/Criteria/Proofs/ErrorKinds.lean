import Criteria.Proofs.Checked.Basic
import Criteria.Proofs.Language.Acceptance
import Criteria.Proofs.Language.Faults
import Criteria.Proofs.Language.Guards
import Criteria.Proofs.Results
import Criteria.Proofs.Structural.Errors

/-! # Kinds of errors

Each front end has its own errors. A text fails at a place of its source, for a syntax error exactly
if it does not parse, and never for the shape of its criteria: what could be wrong with a shape is
wrong with no text that parses. Criteria and orderings fail at a context path, and never for a
syntax error (`error_kinds`).
-/

set_option autoImplicit false

namespace Criteria

theorem Rejection.kind_ne_unparsable (r : Rejection) : r.kind ≠ .unparsable := by
  cases r <;> simp [kind]

/-- A rejection that is not about the shape of criteria. -/
def Rejection.NotOfShape (r : Rejection) : Prop := r.kind ≠ .structural

theorem Rejection.NotOfShape.name {r : Rejection} (h : r.kind = .schemaResolution) :
    r.NotOfShape := by
  rw [NotOfShape, h]
  decide

theorem Rejection.NotOfShape.operator {r : Rejection} (h : r.kind = .operator) :
    r.NotOfShape := by
  rw [NotOfShape, h]
  decide

/-! ## Names and operators -/

namespace Catalog

variable {c : Catalog} {s : Scope}

theorem requireType_notOfShape (typeName : String) :
    FailsWith Rejection.NotOfShape (c.requireType typeName) := by
  unfold requireType
  cases c.entity? typeName with
  | some e => exact .ok e
  | none => exact .error (.name rfl)

theorem checkRoot_notOfShape (name : String) :
    FailsWith Rejection.NotOfShape (checkRoot s name) := by
  unfold checkRoot
  dsimp only
  split
  · exact .ok ()
  · exact .error (.name rfl)

theorem navigate_notOfShape (name : String) :
    FailsWith Rejection.NotOfShape (c.navigate s name) := by
  rw [navigate_eq_map]
  have htype := requireType_notOfShape (c := c) s.currentType
  exact (MemberKind.failsWith_resolve htype fun _ _ => .name rfl).map _

theorem navigateAll_notOfShape (names : List String) :
    FailsWith Rejection.NotOfShape (c.navigateAll s names) := by
  unfold navigateAll
  induction names generalizing s with
  | nil => exact .ok s
  | cons name names ih =>
    rw [List.foldlM_cons]
    exact (navigate_notOfShape name).bind fun s' _ => ih

theorem attributeRef_notOfShape (name : String) :
    FailsWith Rejection.NotOfShape (c.attributeRef s name) := by
  rw [attributeRef_eq_map]
  have htype := requireType_notOfShape (c := c) s.currentType
  exact (MemberKind.failsWith_resolve htype fun _ _ => .name rfl).map _

end Catalog

namespace AttributeRef

variable {a : AttributeRef} {limits : Limits}

theorem apply_notOfShape (function : AttributeFunction) :
    FailsWith Rejection.NotOfShape (a.apply function) := by
  unfold apply
  split
  · exact .error (.operator rfl)
  · split
    · split
      · exact .error (.operator rfl)
      · exact .ok _
    · exact .ok _

theorem value_notOfShape (l : Literal) : FailsWith Rejection.NotOfShape (a.value l) := by
  unfold value
  split
  · exact .ok _
  · exact .error (.operator rfl)

theorem compareOne_notOfShape (comparator : Comparator) {argument : Argument}
    (h : argument ≠ .empty) :
    FailsWith Rejection.NotOfShape (a.compareOne comparator argument) := by
  unfold compareOne
  split
  · exact absurd rfl h
  · split
    · exact .ok _
    · exact .ok _
    · exact .error (.operator rfl)
  · split
    · exact .error (.operator rfl)
    · exact (value_notOfShape _).map _
  · exact .error (.operator rfl)

theorem listValue_notOfShape (comparator : Comparator) (l : Literal) :
    FailsWith Rejection.NotOfShape (a.listValue comparator l) := by
  unfold listValue
  split
  · exact .error (.operator rfl)
  · split
    · exact .error (.operator rfl)
    · exact value_notOfShape _

theorem compareMany_notOfShape (comparator : Comparator) {argument : Argument}
    (hempty : argument ≠ .empty) (hlist : argument ≠ .value (.list [])) :
    FailsWith Rejection.NotOfShape (a.compareMany limits comparator argument) := by
  unfold compareMany
  split
  · exact absurd rfl hempty
  · rename_i items
    split
    · rename_i hitems
      rw [List.isEmpty_iff.1 hitems] at hlist
      exact absurd rfl hlist
    · split
      · exact .error (.operator rfl)
      · apply FailsWith.map
        intro r hr
        obtain ⟨l, -, hl⟩ := exists_mem_of_mapM_eq_error hr
        exact listValue_notOfShape comparator l r hl
  · exact .error (.operator rfl)

/-- An operator is given no empty node if it has a parameter where it takes one, and the parameter
is no empty list. -/
theorem compare_notOfShape {comparator : Comparator} {argument : Argument}
    (hempty : argument = .empty → comparator.cardinality? = none)
    (hlist : argument ≠ .value (.list [])) :
    FailsWith Rejection.NotOfShape (a.compare limits comparator argument) := by
  unfold compare
  split
  · exact .error (.operator rfl)
  · rename_i arity harity
    obtain ⟨-, hcardinality⟩ := ValueType.cardinality_of_mem (ValueType.arity?_eq_some.1 harity)
    split
    · split
      · exact .ok _
      · exact .error (.operator rfl)
    · cases arity with
      | unary =>
        cases argument with
        | empty =>
          dsimp only [compareNone]
          split
          · exact .ok _
          · exact .ok _
        | _ => exact .error (.operator rfl)
      | one =>
        refine compareOne_notOfShape comparator fun h => ?_
        rw [hempty h] at hcardinality
        cases hcardinality
      | many =>
        refine compareMany_notOfShape comparator (fun h => ?_) hlist
        rw [hempty h] at hcardinality
        cases hcardinality
      | derive => exact .error (.operator rfl)

end AttributeRef

/-! ## Texts -/

namespace Language

open Grammar Criteria.Language.Derivation
open Checked (mapError_eq_error)

variable {c : Catalog} {limits : Limits} {s : Scope}

theorem functionOfCall_notOfShape (name : String) (integers : List (Number.Word 64)) :
    FailsWith Rejection.NotOfShape (functionOfCall name integers) := by
  unfold functionOfCall
  dsimp only
  split
  · split
    · split
      · exact .ok _
      · exact .error (.operator rfl)
    · exact .error (.operator rfl)
    all_goals first
      | exact .ok _
      | exact .error (.operator rfl)
  · exact .error (.operator rfl)

theorem Path.checkRoot_notOfShape (p : Path) : FailsWith Rejection.NotOfShape (p.checkRoot s) := by
  unfold checkRoot
  split
  · exact .ok ()
  · exact Catalog.checkRoot_notOfShape _

theorem Path.navigate_notOfShape (p : Path) : FailsWith Rejection.NotOfShape (p.navigate c s) :=
  p.checkRoot_notOfShape.bind fun _ _ => Catalog.navigateAll_notOfShape _

theorem Term.resolve_notOfShape (t : Term) : FailsWith Rejection.NotOfShape (t.resolve c s) := by
  induction t with
  | path p =>
    exact p.checkRoot_notOfShape.bind fun _ _ =>
      (Catalog.navigateAll_notOfShape _).bind fun target _ => Catalog.attributeRef_notOfShape _
  | call extent name argument integers ih =>
    exact ih.bind fun source _ =>
      (functionOfCall_notOfShape _ _).bind fun function _ => AttributeRef.apply_notOfShape function

theorem isUnary_cardinality? {ts : Tokens} {comparator : Comparator} {stop : Nat}
    (h : IsUnary ts (comparator, stop)) : comparator.cardinality? = none := by
  cases h <;> rfl

/-- A parameter is no empty list. -/
theorem isParameter_nonempty {ts : Tokens} {l : Located Literal} (h : IsParameter ts l) :
    l.value ≠ .list [] := by
  cases h with
  | literal h =>
    obtain ⟨s, -, hs⟩ := exists_scalar h
    rw [← hs]
    cases s <;> simp [Phrase.Scalar.literal]
  | list opening items closing => simp

theorem Term.compare_notOfShape {operand : Term} {comparator : Comparator} {argument : Argument}
    (hempty : argument = .empty → comparator.cardinality? = none)
    (hlist : argument ≠ .value (.list [])) :
    FailsWith Rejection.NotOfShape (operand.compare c limits s comparator argument) :=
  operand.resolve_notOfShape.bind fun _ _ => AttributeRef.compare_notOfShape hempty hlist

/-- A leaf that is written has the parameter of its operator, so its shape is not at fault. -/
theorem Leaf.IsWritten.compile_notOfShape {ts : Tokens} {leaf : Leaf} (h : leaf.IsWritten ts) :
    FailsWith Rejection.NotOfShape (leaf.compile c limits s) := by
  cases h with
  | unary hoperand h => exact Term.compare_notOfShape (fun _ => isUnary_cardinality? h) nofun
  | binary hoperand hcomparator hparameter =>
    refine Term.compare_notOfShape nofun fun h => ?_
    exact isParameter_nonempty hparameter (Argument.value.inj h)
  | existence h => exact (Path.navigate_notOfShape _).bind fun target _ => .ok _

theorem toPredicate_notOfShape {maxDepth : Nat} {source : String} {e : Expression}
    (h : Expression.parse maxDepth source = .ok e) :
    FailsWith (fun fault => fault.rejection.NotOfShape) (e.toPredicate c limits s) := by
  intro fault hfault
  obtain ⟨front, l, back, hleaves, -, hl⟩ := e.toPredicate_firstFault hfault
  obtain ⟨inner, -, hrejected⟩ := hl.rejected
  obtain ⟨_, _, _, hwritten⟩ := exists_written h (l := l) (by simp [hleaves])
  obtain ⟨_, run, _, -, hrun, -⟩ := hwritten.run
  exact hrun.compile_notOfShape _ hrejected

/-- An error of a text: one of its syntax, or a rejection of what it says. -/
theorem compile_eq_error {rootType source : String} {error : CompileError}
    (h : compile c limits rootType source = .error error) :
    (∃ e, Expression.parse limits.maxDepth source = .error e ∧
        error = e.inSource source.toList) ∨
      (∃ e, Expression.parse limits.maxDepth source = .ok e) ∧
        ∃ (r : Rejection) (extent : Extent), r.NotOfShape ∧
          error = r.inSource source.toList extent := by
  rw [compile_eq] at h
  rcases bind_eq_error.1 h with h | ⟨expression, hparse, h⟩
  · obtain ⟨e, he, rfl⟩ := mapError_eq_error.1 h
    exact .inl ⟨e, he, rfl⟩
  · have hparse : Expression.parse limits.maxDepth source = .ok expression := by
      cases hresult : Expression.parse limits.maxDepth source with
      | error e => rw [hresult] at hparse; cases hparse
      | ok e => rw [hresult] at hparse; cases hparse; rfl
    refine .inr ⟨⟨expression, hparse⟩, ?_⟩
    rcases bind_eq_error.1 h with h | ⟨scope, -, h⟩
    · obtain ⟨r, hr, rfl⟩ := mapError_eq_error.1 h
      exact ⟨r, _, (Catalog.requireType_notOfShape rootType).map _ r hr, rfl⟩
    · obtain ⟨fault, hfault, rfl⟩ := mapError_eq_error.1 h
      exact ⟨_, _, toPredicate_notOfShape hparse fault hfault, rfl⟩

end Language

/-! ## Criteria and orderings -/

/-- A rejection within a context path. -/
def CompileError.IsContextual (e : CompileError) : Prop :=
  ∃ (r : Rejection) (context : ContextPath), e = r.within context

namespace Structural

variable {c : Catalog} {limits : Limits}

theorem within_isContextual {α : Type} (context : ContextPath) (r : Except Rejection α) :
    FailsWith CompileError.IsContextual (within context r) := by
  cases r with
  | ok a => exact .ok a
  | error r => exact .error ⟨r, context, rfl⟩

/-- An error that points at a fault lies within a context path. -/
theorem Points.isContextual {start : Json} {context : ContextPath} {r : Rejection} {site : Site}
    {e : CompileError} (h : Points start context r site e) : e.IsContextual := by
  cases h with
  | here reads leads unlabelled => exact ⟨r, _, rfl⟩
  | inFilter reads leads unlabelled => exact ⟨r, _, rfl⟩

theorem convert_isContextual (rootType : String) (criteria : List (String × Json)) :
    FailsWith CompileError.IsContextual (convert c limits rootType criteria) := by
  unfold convert
  apply (within_isContextual _ _).bind
  intro scope _ e h
  -- What fails behind the check of the root type reports the first fault of the criteria.
  have hreports : ObjectReports c limits (limits.maxDepth + 1) scope {} e criteria :=
    ofObject_faulty (Nat.zero_add _)
      (fun hdepth hpure => ofMembers_faulty criteria hdepth hpure fun _ hm => hm) h
  obtain ⟨site, r, -, hpoints⟩ := hreports
  exact hpoints.isContextual

variable {direction : String}

mutual

theorem sortKeysOfMembers_isContextual (members : List (String × Json)) {scope : Scope}
    {context : ContextPath} :
    FailsWith CompileError.IsContextual
      (sortKeysOfMembers c direction scope context members) := by
  cases members with
  | nil => exact .ok []
  | cons m members =>
    obtain ⟨name, value⟩ := m
    rw [sortKeysOfMembers]
    apply (sortKeysOfField_isContextual value).bind
    intro first _
    exact (sortKeysOfMembers_isContextual members).bind fun others _ => .ok _
termination_by structural members

theorem sortKeysOfField_isContextual (value : Json) {scope : Scope} {context : ContextPath}
    {name : String} :
    FailsWith CompileError.IsContextual
      (sortKeysOfField c direction scope context name value) := by
  cases value with
  | object members =>
    rw [sortKeysOfField]
    apply (within_isContextual context _).bind
    intro found _
    cases found with
    | attr a =>
      dsimp only
      split
      · split
        · exact .ok _
        · exact .error ⟨_, context, rfl⟩
      · exact .error ⟨_, context, rfl⟩
    | relationship target => exact sortKeysOfMembers_isContextual members
  | _ =>
    rw [sortKeysOfField.eq_def]
    exact .error ⟨_, context, rfl⟩
termination_by structural value

end

theorem orderBy_isContextual (direction rootType : String) (criteria : List (String × Json)) :
    FailsWith CompileError.IsContextual (orderBy c direction rootType criteria) := by
  unfold orderBy
  apply (within_isContextual _ _).bind
  intro scope _
  exact (sortKeysOfMembers_isContextual criteria).bind fun keys _ => .ok _

end Structural

/-! ## Both front ends -/

theorem CompileError.IsContextual.location {e : CompileError} (h : e.IsContextual) :
    (∃ context, e.location = .path context) ∧ e.kind ≠ .unparsable := by
  obtain ⟨r, context, rfl⟩ := h
  exact ⟨⟨context, rfl⟩, r.kind_ne_unparsable⟩

/-- Where the errors of each front end lie and of which kind they are. A text fails for its syntax
exactly if it does not parse, and in no other text is its shape at fault: no guard of the compiler
refuses one either. -/
theorem error_kinds (c : Catalog) (limits : Limits) (rootType : String) :
    (∀ source error, Language.compile c limits rootType source = .error error →
      (∃ excerpt, error.location = .source excerpt) ∧ error.kind ≠ .structural) ∧
    (∀ source, Language.Guarded.compile c limits rootType source =
      Language.Guarded.unguarded (Language.compile c limits rootType source)) ∧
    (∀ source,
      (∃ error, Language.compile c limits rootType source = .error error ∧
        error.kind = .unparsable) ↔
      ∃ e, Language.Expression.parse limits.maxDepth source = .error e) ∧
    (∀ criteria error, Structural.convert c limits rootType criteria = .error error →
      (∃ context, error.location = .path context) ∧ error.kind ≠ .unparsable) ∧
    ∀ direction criteria error, Structural.orderBy c direction rootType criteria = .error error →
      (∃ context, error.location = .path context) ∧ error.kind ≠ .unparsable := by
  refine ⟨?_, Language.Guarded.compile_eq c limits rootType, ?_, ?_, ?_⟩
  · intro source error h
    rcases Language.compile_eq_error h with ⟨e, -, rfl⟩ | ⟨-, r, extent, hr, rfl⟩
    · exact ⟨⟨_, rfl⟩, by simp [Language.ParseError.inSource, CompileError.kind, Cause.kind]⟩
    · exact ⟨⟨_, rfl⟩, hr⟩
  · intro source
    constructor
    · rintro ⟨error, h, hkind⟩
      rcases Language.compile_eq_error h with ⟨e, he, -⟩ | ⟨-, r, extent, -, rfl⟩
      · exact ⟨e, he⟩
      · exact absurd hkind r.kind_ne_unparsable
    · rintro ⟨e, he⟩
      refine ⟨e.inSource source.toList, ?_, rfl⟩
      rw [Language.compile_eq, he]
      rfl
  · exact fun criteria error h =>
      (Structural.convert_isContextual rootType criteria error h).location
  · exact fun direction criteria error h =>
      (Structural.orderBy_isContextual direction rootType criteria error h).location

/-- An error of each front end about persons, and a text that does not parse. -/
theorem staff_error_kinds :
    Language.shoelessError.kind ≠ .structural ∧
      (∃ error, Language.compile staff {} "Person" "this." = .error error ∧
        error.kind = .unparsable) ∧
      (Rejection.emptyNode.within ⟨["AND"]⟩).kind ≠ .unparsable ∧
      ((Rejection.unknownField "shoe" "Person").within ⟨["shoe"]⟩).kind ≠ .unparsable := by
  obtain ⟨htext, -, hunparsable, hcriteria, hordering⟩ := error_kinds staff {} "Person"
  refine ⟨(htext _ _ Language.compile_shoelessText).2, (hunparsable "this.").2 ⟨_, by cbv⟩,
    (hcriteria [("AND", .array [])] _ rfl).2,
    (hordering "ASCENDING" [("shoe", .object [])] _ rfl).2⟩

end Criteria
