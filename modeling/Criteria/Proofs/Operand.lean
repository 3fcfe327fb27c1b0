import Criteria.Proofs.Predicate.Kept
import Criteria.Proofs.Predicate.Text

/-! # Operands

An operand is an attribute inside functions as it is written down. Both notations write the bounds
of a substring as integers of 64 bits, but substrings have bounds of 32 bits, so some calls stand
for no function (`Call.Fits`). The functions are applied from the inside out, and as long as one of
them is not such a call, the outcome is the same in both notations (`Operand.outcome_eq`). At such a
call each notation gives a reason of its own (`Operand.outcome_of_overreaches`).
-/

set_option autoImplicit false

namespace Criteria

open Number

/-! ## Calls -/

/-- A function as it is written down. -/
inductive Call where
  | substring (start stop : Word 64)
  | plain (function : AttributeFunction) (h : function.name ≠ .substring)

namespace Call

/-- The name of the function. -/
def name : Call → FunctionName
  | substring _ _ => .substring
  | plain function _ => function.name

/-- The value type of the function of an attribute of the given type. -/
def resultType : Call → ValueType → ValueType
  | substring _ _, _ => .string
  | plain function _, source => function.resultType source

/-- The arguments that texts have behind what the function is applied to. -/
def integers : Call → List (Word 64)
  | substring start stop => [start, stop]
  | plain _ _ => []

/-- The members that criteria have beside the operator on what the function derives. -/
def bounds : Call → List (String × Json)
  | substring start stop => [("start", .ofInt start.toInt), ("end", .ofInt stop.toInt)]
  | plain _ _ => []

/-- The criteria of the function around an entry about what it derives. -/
def entry (f : Call) (inner : String × Json) : String × Json :=
  (f.name.text, .object (f.bounds ++ [inner]))

/-- The bounds are integers of 32 bits. -/
def Fits : Call → Prop
  | substring start stop => Word.Fits 32 start.toInt ∧ Word.Fits 32 stop.toInt
  | plain _ _ => True

/-- The bounds are in order. -/
def Ordered : Call → Prop
  | substring start stop => 0 ≤ start.toInt ∧ start.toInt ≤ stop.toInt
  | plain _ _ => True

/-- The function that is called, and `refusal` where its bounds do not fit. -/
def function (refusal : Word 64 → Word 64 → Rejection) : Call → Except Rejection AttributeFunction
  | substring start stop =>
    match Word.ofInt? 32 start.toInt, Word.ofInt? 32 stop.toInt with
    | some start, some stop => .ok (.substring start stop)
    | _, _ => .error (refusal start stop)
  | plain function _ => .ok function

/-- What a call is read as: a function that it agrees with, or nothing because of its bounds. -/
inductive Reading (f : Call) : Prop
  | fits (function : AttributeFunction) (hfits : f.Fits)
      (hfunction : ∀ refusal, f.function refusal = .ok function)
      (hname : function.name = f.name) (htype : function.resultType = f.resultType)
      (hordered : function.Ordered ↔ f.Ordered)
  | beyond (start stop : Word 64) (hfits : ¬f.Fits)
      (hfunction : ∀ refusal, f.function refusal = .error (refusal start stop))

theorem reading (f : Call) : f.Reading := by
  cases f with
  | plain function h =>
    refine .fits function trivial (fun _ => rfl) rfl rfl ?_
    cases function with
    | substring start stop => exact absurd rfl h
    | _ => exact Iff.rfl
  | substring start stop =>
    by_cases hfits : (substring start stop).Fits
    · obtain ⟨first, hfirst⟩ := Word.exists_ofInt?_iff.2 hfits.1
      obtain ⟨last, hlast⟩ := Word.exists_ofInt?_iff.2 hfits.2
      have hfunction : ∀ refusal, (substring start stop).function refusal =
          .ok (.substring first last) := by
        intro refusal
        simp only [function, hfirst, hlast]
      refine .fits (.substring first last) hfits hfunction rfl rfl ?_
      rw [AttributeFunction.Ordered, Ordered, Word.toInt_of_ofInt? hfirst,
        Word.toInt_of_ofInt? hlast]
    · refine .beyond start stop hfits ?_
      intro refusal
      by_cases hstart : Word.Fits 32 start.toInt
      · have hnone : Word.ofInt? 32 stop.toInt = none :=
          Word.ofInt?_eq_none_iff.2 fun hstop => hfits ⟨hstart, hstop⟩
        rw [function, hnone]
        cases Word.ofInt? 32 start.toInt <;> rfl
      · have hnone : Word.ofInt? 32 start.toInt = none := Word.ofInt?_eq_none_iff.2 hstart
        simp only [function, hnone]

end Call

/-! ## Operands -/

/-- The criteria of an attribute behind relationships, around an entry about its values. -/
def AttributePath.entry (p : AttributePath) (inner : String × Json) : String × Json :=
  p.navigation.foldr (fun hop below => (hop, .object [below])) (p.name, .object [inner])

/-- An attribute, or a function applied to an operand. -/
inductive Operand where
  | path (p : AttributePath)
  | call (f : Call) (source : Operand)

namespace Operand

/-- The attribute at the bottom. -/
def attributePath : Operand → AttributePath
  | path p => p
  | call _ source => source.attributePath

/-- The type of the values. -/
def valueType : Operand → ValueType
  | path p => p.valueType
  | call f source => f.resultType source.valueType

/-- The text of the operand. -/
def text : Operand → String
  | path p => p.text
  | call (.substring start stop) source => s!"substring({source.text}, {start}, {stop})"
  | call (.plain function _) source => s!"{function.name.text}({source.text})"

/-- The criteria of the operand around an entry about its values. The function applied first stands
outermost. -/
def entry : Operand → String × Json → String × Json
  | path p, inner => p.entry inner
  | call f source, inner => source.entry (f.entry inner)

/-- How many functions are applied to the attribute. -/
def nesting : Operand → Nat
  | path _ => 0
  | call _ source => source.nesting + 1

/-- How deep the criteria of the operand are nested: its relationships and its functions. -/
def levels (o : Operand) : Nat := o.attributePath.navigation.length + o.nesting

/-- Every relationship on the way to the attribute and the attribute have a name of the given
sort. -/
def Named (Name : String → Prop) (o : Operand) : Prop :=
  (AttributeRef.simple o.attributePath).Named Name

/-- The operator table of what each function is applied to offers the function. -/
def Offered : Operand → Prop
  | path _ => True
  | call f source => source.Offered ∧ ⟨.function f.name, .derive⟩ ∈ source.valueType.operators

/-- All bounds are integers of 32 bits. -/
def Fits : Operand → Prop
  | path _ => True
  | call f source => source.Fits ∧ f.Fits

/-- All bounds are integers of 32 bits and in order. -/
def Applies : Operand → Prop
  | path _ => True
  | call f source => source.Applies ∧ f.Fits ∧ f.Ordered

/-- From the inside out, some bound is no integer of 32 bits before any bounds are out of order. -/
def Overreaches : Operand → Prop
  | path _ => False
  | call f source => source.Overreaches ∨ source.Applies ∧ ¬f.Fits

/-- What the functions of an operand yield when they are applied one after the other. A call whose
bounds do not fit is refused for its bounds and the object that criteria write it as. -/
def outcome (refusal : Word 64 → Word 64 → Json → Rejection) :
    Operand → String × Json → Except Rejection AttributeRef
  | path p, _ => .ok (.simple p)
  | call f source, inner => do
    let a ← source.outcome refusal (f.entry inner)
    let function ← f.function fun start stop => refusal start stop (f.entry inner).2
    a.apply function

/-- How texts refuse bounds that do not fit. -/
def rangeRefusal (start stop : Word 64) (_ : Json) : Rejection :=
  .substringRange start.toInt stop.toInt

/-- How criteria refuse bounds that do not fit. -/
def boundsRefusal (_ _ : Word 64) (found : Json) : Rejection := .substringBounds found

variable {o : Operand} {refusal : Word 64 → Word 64 → Json → Rejection} {inner : String × Json}
  {a : AttributeRef}

theorem not_overreaches_of_fits (h : o.Fits) : ¬o.Overreaches := by
  induction o with
  | path p => exact not_false
  | call f source ih =>
    rintro (hsource | ⟨-, hfits⟩)
    · exact ih h.1 hsource
    · exact hfits h.2

theorem applies_of_outcome (h : o.outcome refusal inner = .ok a) :
    o.Applies ∧ a.valueType = o.valueType := by
  induction o generalizing inner a with
  | path p =>
    cases h
    exact ⟨trivial, rfl⟩
  | call f source ih =>
    obtain ⟨b, hb, h⟩ := bind_eq_ok.1 h
    obtain ⟨hsource, htype⟩ := ih hb
    cases f.reading with
    | beyond start stop _ hfunction =>
      rw [hfunction] at h
      cases h
    | fits function hfits hfunction _ hresult hordered =>
      rw [hfunction] at h
      obtain ⟨-, happlied, rfl⟩ := AttributeRef.apply_iff.1 h
      refine ⟨⟨hsource, hfits, hordered.1 happlied⟩, ?_⟩
      rw [AttributeRef.valueType, valueType, hresult, htype]

/-- Functions that the operator tables offer and whose bounds are right can be applied, in either
notation. -/
theorem exists_outcome (hoffered : o.Offered) (h : o.Applies) :
    ∃ a, ∀ refusal inner, o.outcome refusal inner = .ok a := by
  induction o with
  | path p => exact ⟨.simple p, fun _ _ => rfl⟩
  | call f source ih =>
    obtain ⟨a, ha⟩ := ih hoffered.1 h.1
    have htype : a.valueType = source.valueType :=
      (applies_of_outcome (ha boundsRefusal ("", .null))).2
    cases f.reading with
    | beyond _ _ hfits => exact absurd h.2.1 hfits
    | fits function _ hfunction hname _ hordered =>
      have happly : a.apply function = .ok (.derived function a) := by
        refine AttributeRef.apply_iff.2 ⟨?_, hordered.2 h.2.2, rfl⟩
        rw [hname, htype]
        exact ValueType.arity?_eq_some.2 hoffered.2
      refine ⟨.derived function a, fun refusal inner => ?_⟩
      rw [outcome, ha, hfunction]
      exact happly

/-- As long as no bound overreaches, the outcome does not depend on how it would be refused. -/
theorem outcome_eq (h : ¬o.Overreaches) (refusal refusal' : Word 64 → Word 64 → Json → Rejection)
    (inner inner' : String × Json) : o.outcome refusal inner = o.outcome refusal' inner' := by
  induction o generalizing inner inner' with
  | path p => rfl
  | call f source ih =>
    obtain ⟨hsource, hfits⟩ := not_or.1 h
    rw [outcome, outcome, ih hsource _ (f.entry inner')]
    cases houtcome : source.outcome refusal' (f.entry inner') with
    | error r => rfl
    | ok a =>
      have happlies := (applies_of_outcome houtcome).1
      cases f.reading with
      | beyond _ _ hnot => exact absurd ⟨happlies, hnot⟩ hfits
      | fits function _ hfunction => rw [hfunction, hfunction]

/-- A bound that overreaches is what the operand is refused for. -/
theorem outcome_of_overreaches (hoffered : o.Offered) (h : o.Overreaches) (inner : String × Json) :
    ∃ start stop found, ∀ refusal, o.outcome refusal inner = .error (refusal start stop found) := by
  induction o generalizing inner with
  | path p => exact h.elim
  | call f source ih =>
    rcases h with h | ⟨happlies, hfits⟩
    · obtain ⟨start, stop, found, hsource⟩ := ih hoffered.1 h (f.entry inner)
      refine ⟨start, stop, found, fun refusal => ?_⟩
      rw [outcome, hsource]
      rfl
    · obtain ⟨a, ha⟩ := exists_outcome hoffered.1 happlies
      cases f.reading with
      | fits _ hnot => exact absurd hnot hfits
      | beyond start stop _ hfunction =>
        refine ⟨start, stop, (f.entry inner).2, fun refusal => ?_⟩
        rw [outcome, ha, hfunction]
        rfl

end Operand

/-! ## Operands of references -/

/-- The call that a function is written as. -/
def AttributeFunction.call : AttributeFunction → Call
  | substring start stop => .substring start.widen stop.widen
  | toLowerCase => .plain .toLowerCase (by decide)
  | absoluteValue => .plain .absoluteValue (by decide)
  | year => .plain .year (by decide)
  | month => .plain .month (by decide)
  | dayOfMonth => .plain .dayOfMonth (by decide)

theorem AttributeFunction.function_call (function : AttributeFunction)
    (refusal : Word 64 → Word 64 → Rejection) : function.call.function refusal = .ok function := by
  cases function with
  | substring start stop =>
    simp only [call, Call.function, Word.ofInt?_widen]
  | _ => rfl

namespace AttributeRef

/-- The operand that a reference is written as. -/
def operand : AttributeRef → Operand
  | simple path => .path path
  | derived function source => .call function.call source.operand

theorem attributePath_operand (a : AttributeRef) : a.operand.attributePath = a.path := by
  induction a with
  | simple path => rfl
  | derived function source ih => exact ih

theorem nesting_operand (a : AttributeRef) : a.operand.nesting = a.nesting := by
  induction a with
  | simple path => rfl
  | derived function source ih => exact congrArg (· + 1) ih

theorem text_operand (a : AttributeRef) : a.operand.text = a.text := by
  induction a with
  | simple path => rfl
  | derived function source ih =>
    have hplain (name : String) : s!"{name}({source.operand.text})" = s!"{name}({source.text})" :=
      congrArg (fun inner => s!"{name}({inner})") ih
    cases function with
    | substring start stop =>
      exact congrArg (fun inner => s!"substring({inner}, {start}, {stop})") ih
    | _ => exact hplain _

/-- The functions of a well-typed reference yield the reference. -/
theorem WellTyped.outcome_operand {c : Catalog} {root : String} {a : AttributeRef}
    (h : a.WellTyped c root) (refusal : Word 64 → Word 64 → Json → Rejection)
    (inner : String × Json) : a.operand.outcome refusal inner = .ok a := by
  induction a generalizing inner with
  | simple path => rfl
  | derived function source ih =>
    rw [operand, Operand.outcome, ih h.1, AttributeFunction.function_call]
    exact apply_eq_ok h

end AttributeRef

end Criteria
