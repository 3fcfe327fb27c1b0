import Criteria.Proofs.Language.Runs
import Criteria.Proofs.Language.Typing

/-! # Guards of the compiler

A path that is read has a name, so the attribute at its end can be looked up, and the relationships
of an existence test lead somewhere. The compiler relies on both. The guarded compiler asks for them
where they are needed and refuses a path that has a gap (`Gap`); it never does so, and compiles
every text as the compiler does (`Guarded.compile_eq`).

The check for an attribute name cannot fail because a `Path` carries its last name, and the path of
an existence test has at least this one for a relationship. A root without names is no path at all:
`Path.ofSegments?` is where it is refused, while the text is parsed.
-/

set_option autoImplicit false

namespace Criteria.Language

/-- What is missing in a path. -/
inductive Gap where
  | attributeName
  | relationship

namespace Gap

/-- The kind of error that a gap is. -/
def kind : Gap → ErrorKind
  | attributeName => .structural
  | relationship => .structural

/-- The wording of the refusal. -/
def message : Gap → String
  | attributeName => "Expected an attribute name"
  | relationship => "Expected a relationship"

end Gap

namespace Guarded

/-- The outcome of a run that fails with errors and may be refused for a gap. -/
abbrev Run (ε α : Type) : Type := Except (Gap ⊕ ε) α

section

variable {ε δ α β : Type}

/-- A run that asks for nothing. -/
def unguarded (r : Except ε α) : Run ε α := r.mapError .inr

/-- What is there, or the refusal of the gap. -/
def require (gap : Gap) (found : Option α) : Run ε α :=
  match found with
  | some a => .ok a
  | none => .error (.inl gap)

/-- The errors of a run put in another form. -/
def reform (f : ε → δ) (r : Run ε α) : Run δ α := r.mapError (Sum.map id f)

theorem unguarded_bind {r : Except ε α} {f : α → Run ε β} {g : α → Except ε β}
    (next : ∀ a, r = .ok a → f a = unguarded (g a)) :
    unguarded r >>= f = unguarded (r >>= g) := by
  cases r with
  | ok a => exact next a rfl
  | error e => rfl

theorem reform_unguarded (f : ε → δ) (r : Except ε α) :
    reform f (unguarded r) = unguarded (r.mapError f) := by
  cases r <;> rfl

end

/-! ## The compiler with its guards -/

section

variable (c : Catalog) (limits : Limits)

/-- The attribute at the end of a path, which has to have a name: the last one of the path. -/
def resolvePath (s : Scope) (p : Path) : Run Rejection AttributeRef := do
  unguarded (p.checkRoot s)
  let target ← unguarded (c.navigateAll s (p.segments.dropLast.map (·.value)))
  let last ← require .attributeName p.segments.getLast?
  unguarded (c.attributeRef target last.value)

/-- The attribute or function that a term writes. -/
def resolve (s : Scope) : Term → Run Rejection AttributeRef
  | .path p => resolvePath c s p
  | .call _ name argument integers => do
    let source ← resolve s argument
    let function ← unguarded (functionOfCall name.value (integers.map (·.value)))
    unguarded (source.apply function)

/-- What an operator yields of the operand that a term writes. -/
def compare (s : Scope) (extent : Extent) (operand : Term) (comparator : Comparator)
    (argument : Argument) : Run Fault Predicate :=
  reform (⟨·, extent⟩) do
    let a ← resolve c s operand
    unguarded (a.compare limits comparator argument)

mutual

/-- The predicate of an expression in a scope. -/
def toPredicate (s : Scope) : Expression → Run Fault Predicate
  | .all _ => .ok .all
  | .none _ => .ok .none
  | .conjunction _ first others => do
    let p ← toPredicate s first
    foldOthers s Predicate.and p others
  | .disjunction _ first others => do
    let p ← toPredicate s first
    foldOthers s Predicate.or p others
  | .group _ inner => toPredicate s inner
  | .unary extent operand comparator => compare c limits s extent operand comparator .empty
  | .binary extent operand comparator parameter =>
    compare c limits s extent operand comparator (.value parameter.value)
  | .existence _ navigation test filter => do
    let target ← unguarded (atExtent navigation.extent (navigation.navigate c s))
    let relationship ← require .relationship target.relationshipPath?
    let inner ← toFilter target.rebase filter
    .ok (.existence test relationship inner)

/-- The operands of a combination joined to what is in front of them. -/
def foldOthers (s : Scope) (join : Predicate → Predicate → Predicate) (p : Predicate) :
    List Expression → Run Fault Predicate
  | [] => .ok p
  | e :: es => do
    let q ← toPredicate s e
    foldOthers s join (join p q) es

/-- The predicate of a filter, if there is one. -/
def toFilter (s : Scope) : Option Expression → Run Fault (Option Predicate)
  | .none => .ok .none
  | some e => do
    let p ← toPredicate s e
    .ok (some p)

end

/-- The predicate that a text writes about the entities of a type. -/
def compile (rootType source : String) : Run CompileError Predicate := do
  let expression ← unguarded ((Expression.parse limits.maxDepth source).mapError
    (·.inSource source.toList))
  let scope ← unguarded ((c.root rootType).mapError
    (·.inSource source.toList ⟨0, Text.utf8Length source.toList⟩))
  reform (fun fault => fault.rejection.inSource source.toList fault.extent)
    (toPredicate c limits scope expression)

end

/-! ## No guard refuses -/

variable {c : Catalog} {limits : Limits}

theorem resolvePath_eq (s : Scope) (p : Path) :
    resolvePath c s p = unguarded (p.resolve c s) := by
  unfold resolvePath Path.resolve
  apply unguarded_bind
  intro _ _
  rw [Path.segments, List.dropLast_concat]
  apply unguarded_bind
  intro target _
  rw [List.getLast?_concat]
  rfl

theorem resolve_eq (s : Scope) (t : Term) : resolve c s t = unguarded (t.resolve c s) := by
  induction t with
  | path p => exact resolvePath_eq s p
  | call extent name argument integers ih =>
    rw [resolve, Term.resolve, ih]
    apply unguarded_bind
    intro source _
    exact unguarded_bind fun function _ => rfl

theorem compare_eq (s : Scope) (extent : Extent) (operand : Term) (comparator : Comparator)
    (argument : Argument) :
    compare c limits s extent operand comparator argument =
      unguarded (atExtent extent do
        let a ← operand.resolve c s
        a.compare limits comparator argument) := by
  unfold compare
  rw [resolve_eq, unguarded_bind fun a _ => rfl, reform_unguarded]
  cases operand.resolve c s >>= fun a => a.compare limits comparator argument <;> rfl

/-- The names of a path are relationships behind the scope it starts from, so there are some. -/
theorem relationshipPath?_navigate {s target : Scope} {p : Path}
    (h : p.navigate c s = .ok target) :
    target.relationshipPath? =
      some ⟨target.rootType, target.navigation, target.currentType⟩ := by
  unfold Path.navigate at h
  obtain ⟨_, -, h⟩ := bind_eq_ok.1 h
  obtain ⟨typeName, -, rfl⟩ := Catalog.navigateAll_iff.1 h
  simp [Scope.relationshipPath?, Scope.isRoot, Path.segments]

mutual

theorem toPredicate_eq (e : Expression) (s : Scope) :
    toPredicate c limits s e = unguarded (e.toPredicate c limits s) := by
  cases e with
  | all extent => rfl
  | none extent => rfl
  | conjunction extent first others =>
    rw [toPredicate, Expression.toPredicate, toPredicate_eq first s]
    exact unguarded_bind fun p _ => foldOthers_eq others s Predicate.and p
  | disjunction extent first others =>
    rw [toPredicate, Expression.toPredicate, toPredicate_eq first s]
    exact unguarded_bind fun p _ => foldOthers_eq others s Predicate.or p
  | group extent inner =>
    rw [toPredicate, Expression.toPredicate]
    exact toPredicate_eq inner s
  | unary extent operand comparator =>
    rw [toPredicate, Expression.toPredicate]
    exact compare_eq s extent operand comparator .empty
  | binary extent operand comparator parameter =>
    rw [toPredicate, Expression.toPredicate]
    exact compare_eq s extent operand comparator (.value parameter.value)
  | existence extent navigation test filter =>
    rw [toPredicate, Expression.toPredicate]
    apply unguarded_bind
    intro target htarget
    rw [relationshipPath?_navigate (atExtent_eq_ok.1 htarget)]
    show toFilter c limits target.rebase filter >>= _ = _
    rw [toFilter_eq filter target.rebase]
    exact unguarded_bind fun inner _ => rfl
termination_by structural e

theorem foldOthers_eq (es : List Expression) (s : Scope)
    (join : Predicate → Predicate → Predicate) (p : Predicate) :
    foldOthers c limits s join p es =
      unguarded (Expression.foldOthers c limits s join p es) := by
  cases es with
  | nil => rfl
  | cons e es =>
    rw [foldOthers, Expression.foldOthers, toPredicate_eq e s]
    exact unguarded_bind fun q _ => foldOthers_eq es s join (join p q)
termination_by structural es

theorem toFilter_eq (filter : Option Expression) (s : Scope) :
    toFilter c limits s filter = unguarded (Expression.toFilter c limits s filter) := by
  cases filter with
  | none => rfl
  | some e =>
    rw [toFilter, Expression.toFilter, toPredicate_eq e s]
    exact unguarded_bind fun p _ => rfl
termination_by structural filter

end

/-- Every text compiles as it does without guards: no path that is read has a gap. -/
theorem compile_eq (c : Catalog) (limits : Limits) (rootType source : String) :
    compile c limits rootType source = unguarded (Language.compile c limits rootType source) := by
  unfold compile
  rw [Language.compile_eq]
  apply unguarded_bind
  intro expression _
  apply unguarded_bind
  intro scope _
  rw [toPredicate_eq, reform_unguarded]

end Guarded

end Criteria.Language
