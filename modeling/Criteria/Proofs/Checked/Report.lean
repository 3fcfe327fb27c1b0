import Criteria.Language.Compile
import Criteria.Proofs.Checked.Excerpts
import Criteria.Proofs.Checked.Grammar
import Criteria.Proofs.Language.ErrorPlaces
import Criteria.Proofs.Language.Runs
import Criteria.Proofs.Soundness

/-! # Compilation and its report, checked

A text is compiled and what is wrong with it is written out for a reader. The integers of a function
are picked by number once they have been counted (`functionOfCall_eq`), and the place of an error is
one at which the text may be cut, so none of the operations on the way traps
(`report_never_traps`).
-/

set_option autoImplicit false

namespace Criteria.Checked

open Criteria.Language Number Text

/-! ## Functions -/

/-- The number of integers that a function takes. -/
def integerCount : FunctionName → Nat
  | .substring => 2
  | _ => 0

/-- The function that a call writes. Its integers are counted first and then picked by number. -/
def functionOfCall (name : String) (integers : List (Word 64)) :
    Run Rejection AttributeFunction :=
  match Operator.ofName? name with
  | some (.function function) =>
    if integers.length ≠ integerCount function then
      fail (.functionArguments function (integerCount function) integers.length)
    else
      match function with
      | .toLowerCase => .ok .toLowerCase
      | .absoluteValue => .ok .absoluteValue
      | .year => .ok .year
      | .month => .ok .month
      | .dayOfMonth => .ok .dayOfMonth
      | .substring => do
        let start ← guarded (item integers 0)
        let stop ← guarded (item integers 1)
        match Word.ofInt? 32 start.toInt, Word.ofInt? 32 stop.toInt with
        | some start, some stop => .ok (.substring start stop)
        | _, _ => fail (.substringRange start.toInt stop.toInt)
  | _ => fail (.unknownFunction name)

theorem functionOfCall_eq (name : String) (integers : List (Word 64)) :
    functionOfCall name integers = regular (Language.functionOfCall name integers) := by
  unfold functionOfCall Language.functionOfCall
  cases Operator.ofName? name with
  | none => rfl
  | some operator =>
    cases operator with
    | compare comparator => rfl
    | function function =>
      dsimp only
      by_cases hcount : integers.length = integerCount function
      · rw [if_neg (not_not.2 hcount)]
        cases function with
        | substring =>
          obtain ⟨start, stop, rfl⟩ := List.length_eq_two.1 hcount
          simp only [item, List.getElem?_cons_zero, List.getElem?_cons_succ, guarded_ok, bind,
            Except.bind]
          cases Word.ofInt? 32 start.toInt with
          | none => rfl
          | some _ =>
            cases Word.ofInt? 32 stop.toInt with
            | none => rfl
            | some _ => rfl
        | _ =>
          obtain rfl := List.length_eq_zero_iff.1 hcount
          rfl
      · rw [if_pos hcount]
        cases function with
        | substring =>
          rcases integers with _ | ⟨start, _ | ⟨stop, _ | ⟨_, _⟩⟩⟩
          · rfl
          · rfl
          · exact absurd rfl hcount
          · rfl
        | _ =>
          rcases integers with _ | ⟨_, _⟩
          · exact absurd rfl hcount
          · rfl

/-! ## Expressions -/

/-- A run whose rejection is about the given range. -/
def atExtent {α : Type} (extent : Extent) (x : Run Rejection α) : Run Fault α :=
  onFailure x fun rejection => fail ⟨rejection, extent⟩

theorem atExtent_eq {α : Type} (extent : Extent) {x : Run Rejection α} {r : Except Rejection α}
    (h : x = regular r) : atExtent extent x = regular (Language.atExtent extent r) := by
  subst h
  cases r with
  | ok a => rfl
  | error rejection => rfl

section

variable (c : Catalog) (limits : Limits)

/-- The attribute or function that a term writes. -/
def resolve (s : Scope) : Term → Run Rejection AttributeRef
  | .path p => regular (p.resolve c s)
  | .call _ name argument integers => do
    let source ← resolve s argument
    let function ← functionOfCall name.value (integers.map (·.value))
    regular (source.apply function)

theorem resolve_eq (s : Scope) (t : Term) : resolve c s t = regular (t.resolve c s) := by
  induction t with
  | path p => rfl
  | call extent name argument integers ih =>
    apply regular_bind ih
    intro source
    apply regular_bind (functionOfCall_eq _ _)
    intro function
    rfl

mutual

/-- The predicate of an expression in a scope. -/
def toPredicate (s : Scope) : Expression → Run Fault Predicate
  | .all _ => .ok .all
  | .none _ => .ok .none
  | .conjunction _ first others => do
    let p ← toPredicate s first
    foldOthers s Predicate.and p others
  | .disjunction _ first others => do
    let p ← toPredicate s first
    foldOthers s Predicate.or p others
  | .group _ inner => toPredicate s inner
  | .unary extent operand comparator => atExtent extent do
    let a ← resolve c s operand
    regular (a.compare limits comparator .empty)
  | .binary extent operand comparator parameter => atExtent extent do
    let a ← resolve c s operand
    regular (a.compare limits comparator (.value parameter.value))
  | .existence _ navigation test filter => do
    let target ← atExtent navigation.extent (regular (navigation.navigate c s))
    let relationship : RelationshipPath := ⟨target.rootType, target.navigation, target.currentType⟩
    let inner ← toFilter target.rebase filter
    .ok (.existence test relationship inner)

/-- The operands of a combination joined to what is in front of them. -/
def foldOthers (s : Scope) (join : Predicate → Predicate → Predicate) (p : Predicate) :
    List Expression → Run Fault Predicate
  | [] => .ok p
  | e :: es => do
    let q ← toPredicate s e
    foldOthers s join (join p q) es

/-- The predicate of a filter, if there is one. -/
def toFilter (s : Scope) : Option Expression → Run Fault (Option Predicate)
  | .none => .ok .none
  | some e => do
    let p ← toPredicate s e
    .ok (some p)

end

mutual

theorem toPredicate_eq : ∀ (e : Expression) (s : Scope),
    toPredicate c limits s e = regular (e.toPredicate c limits s)
  | .all _, _ => rfl
  | .none _, _ => rfl
  | .conjunction _ first others, s =>
    regular_bind (toPredicate_eq first s) fun p => foldOthers_eq others s Predicate.and p
  | .disjunction _ first others, s =>
    regular_bind (toPredicate_eq first s) fun p => foldOthers_eq others s Predicate.or p
  | .group _ inner, s => toPredicate_eq inner s
  | .unary extent operand _, s =>
    atExtent_eq extent (regular_bind (resolve_eq c s operand) fun _ => rfl)
  | .binary extent operand _ _, s =>
    atExtent_eq extent (regular_bind (resolve_eq c s operand) fun _ => rfl)
  | .existence _ navigation _ filter, _ =>
    regular_bind (atExtent_eq navigation.extent rfl) fun target =>
      regular_bind (toFilter_eq filter target.rebase) fun _ => rfl

theorem foldOthers_eq : ∀ (es : List Expression) (s : Scope)
    (join : Predicate → Predicate → Predicate) (p : Predicate),
    foldOthers c limits s join p es = regular (Expression.foldOthers c limits s join p es)
  | [], _, _, _ => rfl
  | e :: es, s, join, p =>
    regular_bind (toPredicate_eq e s) fun q => foldOthers_eq es s join (join p q)

theorem toFilter_eq : ∀ (filter : Option Expression) (s : Scope),
    toFilter c limits s filter = regular (Expression.toFilter c limits s filter)
  | .none, _ => rfl
  | some e, s => regular_bind (toPredicate_eq e s) fun _ => rfl

end

/-! ## Texts -/

/-- The predicate that a text writes about the entities of a type. -/
def compile (rootType source : String) : Run CompileError Predicate := do
  let chars := source.toList
  let expression ← onFailure (parse limits.maxDepth source) fun e => do
    let excerpt ← guarded (pointExcerpt chars e.position e.width)
    fail ⟨.unparsable e, .source excerpt⟩
  let scope ← onFailure (regular (c.root rootType)) fun r =>
    fail (r.inSource chars ⟨0, utf8Length chars⟩)
  onFailure (toPredicate c limits scope expression) fun fault =>
    fail (fault.rejection.inSource chars fault.extent)

theorem compile_eq (rootType source : String) :
    compile c limits rootType source = regular (Language.compile c limits rootType source) := by
  rw [Language.compile_eq]
  apply regular_bind
  · apply onFailure_regular (parse_eq limits.maxDepth source)
    intro e he
    rw [pointExcerpt_eq (parse_error_boundary he)]
    rfl
  · intro expression
    apply regular_bind
    · exact onFailure_regular rfl fun _ _ => rfl
    · intro scope
      exact onFailure_regular (toPredicate_eq c limits expression scope) fun _ _ => rfl

/-- An error of a text shows a part of it that counts from one and is underlined forwards. -/
theorem compile_error_wellPlaced {rootType source : String} {e : CompileError}
    (h : Language.compile c limits rootType source = .error e) :
    ∃ x, e.location = .source x ∧ WellPlaced x := by
  rw [Language.compile_eq] at h
  rcases bind_eq_error.1 h with h | ⟨expression, -, h⟩
  · obtain ⟨e, -, rfl⟩ := mapError_eq_error.1 h
    exact ⟨_, rfl, wellPlaced_ofPoint _ _ _⟩
  · rcases bind_eq_error.1 h with h | ⟨scope, -, h⟩
    · obtain ⟨r, -, rfl⟩ := mapError_eq_error.1 h
      exact ⟨_, rfl, wellPlaced_ofRange _ _ _⟩
    · obtain ⟨fault, -, rfl⟩ := mapError_eq_error.1 h
      exact ⟨_, rfl, wellPlaced_ofRange _ _ _⟩

/-- The predicate that a text writes, or what is wrong with it as a reader sees it. -/
def report (rootType source : String) (format : DiagnosticFormat) (showCode : Bool) :
    Run String Predicate :=
  onFailure (compile c limits rootType source) fun e => do
    let diagnostic ← guarded (diagnose e)
    fail (diagnostic.render format showCode)

theorem report_eq (rootType source : String) (format : DiagnosticFormat) (showCode : Bool) :
    report c limits rootType source format showCode =
      regular ((Language.compile c limits rootType source).mapError
        fun e => (Diagnostic.ofError e).render format showCode) := by
  apply onFailure_regular (compile_eq c limits rootType source)
  intro e he
  have hplaced : ∀ x, e.location = .source x → WellPlaced x := by
    obtain ⟨x, hx, hplaced⟩ := compile_error_wellPlaced c limits he
    intro y hy
    rw [hx] at hy
    cases hy
    exact hplaced
  rw [diagnose_eq hplaced]
  rfl

/-- Whatever text is compiled over whatever catalog, no operation on the way to the predicate or to
the report traps, and both are as the definitions say. What is wrong with a text that does not parse
is placed where the text may be cut, and every error shows a part of the text with its line and
column counted from one and with an underline that does not end before it starts. -/
theorem report_never_traps (rootType source : String) (format : DiagnosticFormat)
    (showCode : Bool) :
    (∀ t, report c limits rootType source format showCode ≠ .error (.trapped t)) ∧
      report c limits rootType source format showCode =
        regular ((Language.compile c limits rootType source).mapError
          fun e => (Diagnostic.ofError e).render format showCode) ∧
      (∀ e, Expression.parse limits.maxDepth source = .error e →
        IsBoundary source.toList e.position ∧ e.position ≤ utf8Length source.toList) ∧
      ∀ e, Language.compile c limits rootType source = .error e →
        ∃ x, e.location = .source x ∧ 1 ≤ x.line ∧ 1 ≤ x.column ∧
          x.underline.1 ≤ x.underline.2 := by
  have hreport := report_eq c limits rootType source format showCode
  refine ⟨?_, hreport, ?_, ?_⟩
  · intro t ht
    rw [hreport] at ht
    obtain ⟨_, -, h⟩ := mapError_eq_error.1 ht
    cases h
  · intro e he
    exact ⟨parse_error_boundary he, (parse_error_boundary he).le⟩
  · intro e he
    obtain ⟨x, hx, hplaced⟩ := compile_error_wellPlaced c limits he
    exact ⟨x, hx, hplaced.line, hplaced.column, hplaced.underline⟩

end

/-- A text in which an escape that is none stands behind a character of two bytes. -/
def misescapedText : String := "this.name = 'ü\\q'"

/-- The error of the text with the escape. -/
def misescapedError : CompileError :=
  ⟨.unparsable (.invalidEscape 'q' 15), .source ⟨1, 15, misescapedText, (14, 16)⟩⟩

theorem parse_misescapedText :
    Expression.parse 64 misescapedText = .error (.invalidEscape 'q' 15) := by
  cbv

theorem compile_misescapedText :
    Language.compile staff {} "Person" misescapedText = .error misescapedError := by
  cbv

theorem misescapedText_never_traps :
    (∀ t, report staff {} "Person" misescapedText .text true ≠ .error (.trapped t)) ∧
      Expression.parse 64 misescapedText = .error (.invalidEscape 'q' 15) ∧
      IsBoundary misescapedText.toList 15 ∧ 15 ≤ utf8Length misescapedText.toList ∧
      ∃ x, misescapedError.location = .source x ∧ 1 ≤ x.line ∧ 1 ≤ x.column ∧
        x.underline.1 ≤ x.underline.2 := by
  obtain ⟨hreport, -, hparse, hcompile⟩ :=
    report_never_traps staff {} "Person" misescapedText .text true
  obtain ⟨hboundary, hle⟩ := hparse _ parse_misescapedText
  exact ⟨hreport, parse_misescapedText, hboundary, hle, hcompile _ compile_misescapedText⟩

end Criteria.Checked
