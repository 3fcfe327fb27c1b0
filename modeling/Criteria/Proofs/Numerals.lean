import Criteria.Proofs.Agreement
import Criteria.Proofs.Json.Documents
import Criteria.Proofs.Json.Exactness
import Criteria.Proofs.Language.NumberLeaves

/-! # Numerals in both notations

A numeral is a literal in texts and a number in JSON, which is a literal as well. The two literals
are the same but for minus zero, whole numbers beyond 64 bits and fractions that JSON reads as a
neighbour of the nearest number (`literals_of_numeral`). So an attribute compared with a numeral
means the same in both notations, or fails in both, exactly if none of these makes a difference for
its type (`numeral_agrees_iff`).
-/

set_option autoImplicit false

namespace Criteria

open Criteria.Number Criteria.Language Criteria.Structural

-- Powers are those of the core library, whatever else is loaded beside it.
attribute [local instance (2000)] instPowNat

/-! ## Numerals -/

namespace Number.Numeral

/-- Zero with a minus sign, without fraction and exponent. -/
def IsMinusZero (n : Numeral) : Prop := n.isInteger = true ∧ n.negative = true ∧ n.toInt = 0

/-- A whole number that does not fit 64 bits. -/
def IsWide (n : Numeral) : Prop := n.isInteger = true ∧ Word.ofInt? 64 n.toInt = none

instance (n : Numeral) : Decidable n.IsMinusZero := inferInstanceAs (Decidable (_ ∧ _))

instance (n : Numeral) : Decidable n.IsWide := inferInstanceAs (Decidable (_ ∧ _))

/-- The number of 64 bits nearest to the numeral, if it is finite. -/
def nearest? (n : Numeral) : Option Double :=
  if (n.toBinary .double).isFinite then some (n.toBinary .double) else none

end Number.Numeral

/-- A number of 64 bits as one of 32 bits, if that is finite. -/
def narrowed? (x : Double) : Option Single :=
  if (x.convert .single).isFinite then some (x.convert .single) else none

/-- The literal that a numeral is in JSON, if it is one. -/
def literalOfJsonNumeral? (n : Numeral) : Option Literal :=
  (Json.numeric? n).map Literal.ofNumeric

/-- The zero of 64 bits. -/
def zeroWord : Word 64 := ⟨0, by decide, by decide⟩

/-- The literals that a numeral is in texts and in JSON, by the sort of the numeral. -/
inductive Literals (n : Numeral) : Option Literal → Option Literal → Prop
  | whole (word : Word 64) (hzero : ¬n.IsMinusZero) (hwide : ¬n.IsWide) (hn : n.isInteger = true) :
      Literals n (some (.integer word)) (some (.integer word))
  | minusZero (h : n.IsMinusZero) (hwide : ¬n.IsWide) :
      Literals n (some (.integer zeroWord)) (some (.float (.zero .double true)))
  | wide (h : n.IsWide) (hzero : ¬n.IsMinusZero) (x : Option Double) :
      Literals n none (x.map .float)
  | fractional (h : n.isInteger = false) :
      Literals n (n.nearest?.map .float) ((Json.real? n).map .float)

theorem literalOfNumeral?_of_isInteger {n : Numeral} (h : n.isInteger = true) :
    literalOfNumeral? n = (Word.ofInt? 64 n.toInt).map .integer := by
  unfold literalOfNumeral? Lexeme.numeralToken
  rw [if_pos h]
  cases Word.ofInt? 64 n.toInt <;> rfl

theorem literalOfNumeral?_of_not_isInteger {n : Numeral} (h : n.isInteger = false) :
    literalOfNumeral? n = n.nearest?.map .float := by
  unfold literalOfNumeral? Lexeme.numeralToken Numeral.nearest?
  rw [if_neg (by rw [h]; decide)]
  dsimp only
  split <;> rfl

namespace Number.Numeral.IsMinusZero

variable {n : Numeral} (h : n.IsMinusZero)
include h

theorem digits_eq_zero : natOfDigits (n.whole ++ n.fraction.getD []) = 0 ∧
    n.exponent.getD 0 - (n.fraction.getD []).length = 0 := by
  obtain ⟨hn, -, hzero⟩ := h
  obtain ⟨hfraction, hexponent⟩ : n.fraction = none ∧ n.exponent = none := by
    simpa [isInteger] using hn
  have hdigits : natOfDigits n.whole = 0 := by
    unfold toInt at hzero
    dsimp only at hzero
    split at hzero <;> omega
  simp [hfraction, hexponent, hdigits]

theorem isShort : Json.IsShort n := by
  obtain ⟨hdigits, hexponent⟩ := h.digits_eq_zero
  exact ⟨by rw [hdigits]; decide, by rw [hexponent]; decide⟩

theorem toBinary_eq : n.toBinary .double = .zero .double true := by
  rw [toBinary, h.digits_eq_zero.1, Binary.ofDecimal, if_pos rfl, h.2.1]

end Number.Numeral.IsMinusZero

/-- What a whole number of 64 bits is in JSON. -/
theorem literalOfJsonNumeral?_of_word {n : Numeral} {word : Word 64} (hn : n.isInteger = true)
    (hword : Word.ofInt? 64 n.toInt = some word) (hzero : ¬n.IsMinusZero) :
    literalOfJsonNumeral? n = some (.integer word) := by
  have hvalue := Word.toInt_of_ofInt? hword
  have hlower := word.lower
  have hupper := word.upper
  have hsigned : ¬(n.negative = true ∧ n.toInt = 0) := fun h => hzero ⟨hn, h.1, h.2⟩
  rw [literalOfJsonNumeral?, Json.numeric?, if_pos ⟨hn, by omega, by omega, hsigned⟩,
    Option.map_some, Literal.ofNumeric, hword]

/-- Minus zero is binary in JSON. -/
theorem numeric?_of_isMinusZero {n : Numeral} (h : n.IsMinusZero) :
    Json.numeric? n = some (.double (.zero .double true)) := by
  rw [Json.numeric?, if_neg fun hinteger => hinteger.2.2.2 h.2, Json.real?_of_isShort h.isShort,
    h.toBinary_eq]
  rfl

/-- A whole number beyond 64 bits is binary in JSON, if it is a literal at all. -/
theorem exists_literalOfJsonNumeral?_of_isWide {n : Numeral} (h : n.IsWide) :
    ∃ x : Option Double, literalOfJsonNumeral? n = x.map .float := by
  unfold literalOfJsonNumeral? Json.numeric?
  dsimp only
  split
  · refine ⟨some (.ofInt .double n.toInt), ?_⟩
    rw [Option.map_some, Literal.ofNumeric, h.2]
    rfl
  · refine ⟨Json.real? n, ?_⟩
    rw [Option.map_map]
    rfl

theorem literals_of_numeral (n : Numeral) :
    Literals n (literalOfNumeral? n) (literalOfJsonNumeral? n) := by
  cases hn : n.isInteger with
  | false =>
    have hreal : literalOfJsonNumeral? n = (Json.real? n).map .float := by
      rw [literalOfJsonNumeral?, Json.numeric?, if_neg (by simp [hn]), Option.map_map]
      rfl
    rw [literalOfNumeral?_of_not_isInteger hn, hreal]
    exact .fractional hn
  | true =>
    rw [literalOfNumeral?_of_isInteger hn]
    cases hword : Word.ofInt? 64 n.toInt with
    | none =>
      have hzero : ¬n.IsMinusZero := by
        rintro ⟨-, -, hzero⟩
        rw [hzero] at hword
        cases hword
      obtain ⟨x, hx⟩ := exists_literalOfJsonNumeral?_of_isWide ⟨hn, hword⟩
      rw [hx]
      exact .wide ⟨hn, hword⟩ hzero x
    | some word =>
      have hwide : ¬n.IsWide := fun h => by
        cases h.2.symm.trans hword
      by_cases hzero : n.IsMinusZero
      · rw [literalOfJsonNumeral?, numeric?_of_isMinusZero hzero]
        rw [hzero.2.2] at hword
        cases hword
        exact .minusZero hzero hwide
      · rw [literalOfJsonNumeral?_of_word hn hword hzero]
        exact .whole word hzero hwide hn

/-! ## Values -/

/-- Whether the values of the type are numbers. -/
def ValueType.IsNumeric (t : ValueType) : Prop := t ∈ [integer, long, float, double]

instance (t : ValueType) : Decidable t.IsNumeric := inferInstanceAs (Decidable (_ ∈ _))

/-- JSON reads a fraction as another number than the nearest one, and the type keeps the
difference. -/
def Strays (n : Numeral) : ValueType → Prop
  | .double => Json.real? n ≠ n.nearest?
  | .float => (Json.real? n).bind narrowed? ≠ n.nearest?.bind narrowed?
  | _ => False

/-- What makes a numeral mean something else in JSON than in a text, for attributes of a type. -/
@[mk_iff]
inductive Diverges (t : ValueType) (n : Numeral) : Prop
  | minusZero (h : n.IsMinusZero) (ht : t.IsNumeric)
  | wide (h : n.IsWide)
      (ht : ((literalOfJsonNumeral? n).bind (Value.ofLiteral? t)).isSome = true)
  | fractional (h : n.isInteger = false) (ht : Strays n t)

/-- Numbers of 64 bits are values of binary types only, and of 32 bits if they fit. -/
theorem bind_ofLiteral?_float (t : ValueType) (x : Option Double) :
    (x.map Literal.float).bind (Value.ofLiteral? t) =
      match t with
      | .double => x.map .double
      | .float => (x.bind narrowed?).map .float
      | _ => none := by
  cases x with
  | none => cases t <;> rfl
  | some x =>
    cases t with
    | float =>
      show Value.ofLiteral? .float (.float x) = (narrowed? x).map .float
      unfold narrowed?
      rw [Value.ofLiteral?]
      split <;> rfl
    | _ => rfl

theorem fractional_agrees_iff (t : ValueType) (n : Numeral) :
    (n.nearest?.map Literal.float).bind (Value.ofLiteral? t) =
        ((Json.real? n).map Literal.float).bind (Value.ofLiteral? t) ↔ ¬Strays n t := by
  have hdouble : Function.Injective Value.double := fun x y h => by
    cases h
    rfl
  have hfloat : Function.Injective Value.float := fun x y h => by
    cases h
    rfl
  rw [bind_ofLiteral?_float, bind_ofLiteral?_float]
  cases t with
  | double =>
    rw [(Option.map_injective hdouble).eq_iff, Strays, ne_eq, not_not]
    exact eq_comm
  | float =>
    rw [(Option.map_injective hfloat).eq_iff, Strays, ne_eq, not_not]
    exact eq_comm
  | _ => simp [Strays]

/-- Zero without a sign is no value of numeric types that minus zero is. -/
theorem minusZero_agrees_iff (t : ValueType) :
    Value.ofLiteral? t (.integer zeroWord) = Value.ofLiteral? t (.float (.zero .double true)) ↔
      ¬t.IsNumeric := by
  cases t with
  | float =>
    have hnegative : (Binary.zero .double true).convert .single = .zero .single true :=
      Binary.convert_zero (by decide) (by decide +kernel) true
    have hfinite : (Binary.zero .single true).isFinite = true := by decide +kernel
    rw [Value.ofLiteral?, Value.ofLiteral?, hnegative, if_pos hfinite, zeroWord,
      Binary.ofInt_zero (by decide)]
    simp [ValueType.IsNumeric, Binary.zero]
  | double =>
    rw [Value.ofLiteral?, Value.ofLiteral?, zeroWord, Binary.ofInt_zero (by decide)]
    simp [ValueType.IsNumeric, Binary.zero]
  | _ => simp [ValueType.IsNumeric, Value.ofLiteral?, zeroWord, Word.ofInt?]

/-- The value of a numeral is the same in both notations, or missing in both, unless the numeral
diverges for the type. -/
theorem values_agree_iff (t : ValueType) (n : Numeral) :
    (literalOfNumeral? n).bind (Value.ofLiteral? t) =
        (literalOfJsonNumeral? n).bind (Value.ofLiteral? t) ↔ ¬Diverges t n := by
  have hliterals := literals_of_numeral n
  rw [diverges_iff]
  generalize literalOfNumeral? n = l at hliterals ⊢
  generalize literalOfJsonNumeral? n = j at hliterals ⊢
  cases hliterals with
  | whole word hzero hwide hn => simp [hzero, hwide, hn]
  | minusZero h hwide => simp [h, hwide, h.1, minusZero_agrees_iff]
  | wide h hzero x =>
    rw [Option.bind_none, eq_comm, ← Option.not_isSome_iff_eq_none]
    simp [h, hzero, h.1]
  | fractional h => simp [Numeral.IsMinusZero, Numeral.IsWide, h, fractional_agrees_iff]

theorem not_isWide_of_isShort {n : Numeral} (h : Json.IsShort n) : ¬n.IsWide := by
  rintro ⟨hn, hwide⟩
  obtain ⟨hfraction, -⟩ : n.fraction = none ∧ n.exponent = none := by
    simpa [Numeral.isInteger] using hn
  have hdigits := h.digits
  rw [hfraction, Option.getD_none, List.append_nil] at hdigits
  have hvalue : n.toInt.natAbs ≤ 2 ^ 53 := by
    unfold Numeral.toInt
    dsimp only
    split <;> omega
  unfold Word.ofInt? at hwide
  split at hwide
  · cases hwide
  · omega

theorem not_strays_of_isShort {n : Numeral} (h : Json.IsShort n) (t : ValueType) :
    ¬Strays n t := by
  have hreal := Json.real?_of_isShort h
  have hsame : Json.real? n = n.nearest? := by
    rw [Numeral.nearest?, if_pos (Json.isFinite_of_real? hreal), hreal]
  cases t <;> simp [Strays, hsame]

/-- A short numeral, and any whole number of 64 bits, diverges only if it is minus zero. -/
theorem diverges_iff_isMinusZero {t : ValueType} {n : Numeral}
    (h : Json.IsShort n ∨ n.isInteger = true ∧ ¬n.IsWide) :
    Diverges t n ↔ n.IsMinusZero ∧ t.IsNumeric := by
  constructor
  · rintro (⟨hzero, ht⟩ | ⟨hwide, -⟩ | ⟨hn, hstrays⟩)
    · exact ⟨hzero, ht⟩
    · rcases h with hshort | ⟨-, hwide'⟩
      · exact absurd hwide (not_isWide_of_isShort hshort)
      · exact absurd hwide hwide'
    · rcases h with hshort | ⟨hn', -⟩
      · exact absurd hstrays (not_strays_of_isShort hshort t)
      · cases hn.symm.trans hn'
  · rintro ⟨hzero, ht⟩
    exact .minusZero hzero ht

/-! ## Comparisons -/

/-- The literal is a number. -/
inductive Literal.IsNumber : Literal → Prop
  | integer (word : Word 64) : IsNumber (.integer word)
  | float (x : Double) : IsNumber (.float x)

theorem Literals.isNumber {n : Numeral} {found foundJson : Option Literal}
    (h : Literals n found foundJson) :
    (∀ l ∈ found, l.IsNumber) ∧ ∀ l ∈ foundJson, l.IsNumber := by
  have hfloat (x : Option Double) : ∀ l ∈ x.map Literal.float, l.IsNumber := by
    intro l hl
    obtain ⟨y, -, rfl⟩ := Option.map_eq_some_iff.1 hl
    exact .float y
  have hsome {a : Literal} (ha : a.IsNumber) : ∀ l ∈ some a, l.IsNumber := by
    rintro _ ⟨⟩
    exact ha
  cases h with
  | whole word => exact ⟨hsome (.integer word), hsome (.integer word)⟩
  | minusZero => exact ⟨hsome (.integer zeroWord), hsome (.float _)⟩
  | wide _ _ x => exact ⟨nofun, hfloat x⟩
  | fractional => exact ⟨hfloat _, hfloat _⟩

/-- An attribute compared with one number. -/
theorem AttributeRef.compare_number {a : AttributeRef} {comparator : Comparator} {l : Literal}
    (harity : a.valueType.arity? (.compare comparator) = some .one) (hl : l.IsNumber)
    (limits : Limits) :
    (a.compare limits comparator (.value l)).toOption =
      (Value.ofLiteral? a.valueType l).map fun v => .compare a comparator (.one v) := by
  unfold compare
  rw [harity]
  dsimp only
  split
  · rename_i hasOf
    -- An as-of attribute may differ from null only, and no number is an instant.
    rw [hasOf.1]
    cases hl <;> rfl
  · cases hl <;>
    · simp only [compareOne, Literal.isList, value]
      cases Value.ofLiteral? a.valueType _ <;> rfl

/-- The predicate of criteria that stand in a text as JSON. -/
def convertText? (c : Catalog) (limits : Limits) (root text : String) : Option Predicate :=
  match Json.read? text with
  | some (.object criteria) => (convert c limits root criteria).toOption
  | _ => none

theorem toOption_within {α : Type} (context : ContextPath) (r : Except Rejection α) :
    (within context r).toOption = r.toOption := by
  cases r <;> rfl

/-- The entry of an attribute is a document of one member in each object. -/
theorem nest_entry (p : AttributePath) (key : String) (value : Json) :
    Json.nest (p.navigation ++ [p.name, key]) value = .object [p.entry (key, value)] := by
  unfold AttributePath.entry Json.nest
  rw [List.foldr_append]
  induction p.navigation with
  | nil => rfl
  | cons hop hops ih => rw [List.foldr_cons, ih, List.foldr_cons]

section

variable {c : Catalog} {limits : Limits} {p : AttributePath} {comparator : Comparator}
  {number : String} {n : Numeral}

/-- The comparison with a value, if there is one. -/
def comparisonWith (p : AttributePath) (comparator : Comparator) (v : Option Value) :
    Option Predicate :=
  v.map fun v => .compare (.simple p) comparator (.one v)

theorem comparisonWith_injective (p : AttributePath) (comparator : Comparator) :
    Function.Injective (comparisonWith p comparator) := by
  refine Option.map_injective fun v w h => ?_
  cases h
  rfl

theorem bind_compare (limits : Limits)
    (harity : p.valueType.arity? (.compare comparator) = some .one) {l : Option Literal}
    (hl : ∀ a ∈ l, a.IsNumber) :
    (l.bind fun l => ((AttributeRef.simple p).compare limits comparator (.value l)).toOption) =
      comparisonWith p comparator (l.bind (Value.ofLiteral? p.valueType)) := by
  cases l with
  | none => rfl
  | some l =>
    have hoffered : (AttributeRef.simple p).valueType.arity? (.compare comparator) = _ := harity
    exact AttributeRef.compare_number hoffered (hl l rfl) limits

theorem compile_number (hresolves : p.Resolves c) (hnamed : (AttributeRef.simple p).Named IsWord)
    (harity : p.valueType.arity? (.compare comparator) = some .one)
    (hnumber : Numeral.span? number.toList = some (n, number.toList, [])) :
    (compile c limits p.rootType s!"{p.text} {comparator.symbol} {number}").toOption =
      comparisonWith p comparator ((literalOfNumeral? n).bind (Value.ofLiteral? p.valueType)) := by
  have hcardinality : comparator.cardinality?.isSome = true := by
    rw [← (ValueType.cardinality_of_mem (ValueType.arity?_eq_some.1 harity)).2]
    rfl
  rw [← bind_compare limits harity (literals_of_numeral n).isNumber.1]
  exact compile_numeral hresolves hnamed hcardinality hnumber

theorem convert_number {d : SchemaDocument} (hloaded : d.toSchema = .ok c.schema)
    (hresolves : p.Resolves c) (hnamed : (AttributeRef.simple p).Named IsField)
    (hdepth : p.navigation.length + 1 ≤ limits.maxDepth)
    (hnesting : p.navigation.length + 2 ≤ Json.maxNesting) {key : String}
    (hkey : p.valueType.resolveOperator key = .ok (.compare comparator, .one))
    (hnumber : Json.IsNumber number.toList n) :
    convertText? c limits p.rootType
        (String.ofList (Json.nestText (p.navigation ++ [p.name, key]) number.toList)) =
      comparisonWith p comparator
        ((literalOfJsonNumeral? n).bind (Value.ofLiteral? p.valueType)) := by
  have harity := (resolveOperator_eq_ok.1 hkey).2
  have hresolved : (AttributeRef.simple p).valueType.resolveOperator key = _ := hkey
  have hread : Json.read? (String.ofList (Json.nestText (p.navigation ++ [p.name, key])
      number.toList)) = _ := Json.read?_nestText hnumber (by simpa using hnesting)
  rw [← bind_compare limits harity (literals_of_numeral n).isNumber.2, convertText?,
    hread, literalOfJsonNumeral?]
  cases Json.numeric? n with
  | none => rfl
  | some value =>
    rw [Option.map_some, nest_entry]
    dsimp only
    rw [convert_path hloaded hresolves hnamed hdepth, ofOperators_resolved hresolved,
      toOption_within]
    rfl

/-- An attribute compared with a numeral means the same in both notations, or fails in both, exactly
if the numeral does not diverge for the type of the attribute. Short numerals and whole numbers of
64 bits diverge only if they are minus zero. The names have to be words that are no keys of their
own in criteria, which may be nested as deep as the path needs. -/
theorem numeral_agrees_iff {d : SchemaDocument} (hloaded : d.toSchema = .ok c.schema)
    (hresolves : p.Resolves c)
    (hnamed : (AttributeRef.simple p).Named fun name => IsWord name ∧ IsField name)
    (hdepth : p.navigation.length + 1 ≤ limits.maxDepth)
    (hnesting : p.navigation.length + 2 ≤ Json.maxNesting) {key : String}
    (hkey : p.valueType.resolveOperator key = .ok (.compare comparator, .one))
    (hnumber : Json.IsNumber number.toList n) :
    ((compile c limits p.rootType s!"{p.text} {comparator.symbol} {number}").toOption =
        convertText? c limits p.rootType
          (String.ofList (Json.nestText (p.navigation ++ [p.name, key]) number.toList)) ↔
      ¬Diverges p.valueType n) ∧
    (Json.IsShort n ∨ n.isInteger = true ∧ ¬n.IsWide →
      (Diverges p.valueType n ↔ n.IsMinusZero ∧ p.valueType.IsNumeric)) := by
  obtain ⟨hhops, hlast⟩ := hnamed
  have hwords : (AttributeRef.simple p).Named IsWord :=
    ⟨fun hop hhop => (hhops hop hhop).1, hlast.1⟩
  have hfields : (AttributeRef.simple p).Named IsField :=
    ⟨fun hop hhop => (hhops hop hhop).2, hlast.2⟩
  have harity := (resolveOperator_eq_ok.1 hkey).2
  refine ⟨?_, diverges_iff_isMinusZero⟩
  rw [compile_number hresolves hwords harity hnumber.span,
    convert_number hloaded hresolves hfields hdepth hnesting hkey hnumber,
    (comparisonWith_injective p comparator).eq_iff]
  exact values_agree_iff p.valueType n

end

/-- The age of the manager. -/
def ageOfManager : AttributePath := ⟨"Person", ["manager"], "age", .integer, false⟩

/-- The criteria that the manager is twelve or older. -/
def managerOfTwelve : String :=
  "\x7b\"manager\":\x7b\"age\":\x7b\"greaterThanEquals\":12\x7d\x7d\x7d"

theorem managerOfTwelve_agrees :
    (compile staff {} "Person" "this.manager.age >= 12").toOption =
        convertText? staff {} "Person" managerOfTwelve ∧
      ∃ q, compile staff {} "Person" "this.manager.age >= 12" = .ok q := by
  have hloaded : staffDocument.toSchema = .ok staff.schema := rfl
  have hresolves : ageOfManager.Resolves staff := ⟨"Person", rfl, rfl⟩
  have hkey : ageOfManager.valueType.resolveOperator "greaterThanEquals" =
      .ok (.compare .greaterThanEquals, .one) := rfl
  have hnumber : Json.IsNumber "12".toList ⟨false, ['1', '2'], none, none⟩ := ⟨by rfl, rfl⟩
  obtain ⟨hagrees, hdiverges⟩ := numeral_agrees_iff hloaded hresolves
    ⟨fun hop hhop => staff_names hop (List.mem_singleton.1 hhop ▸ List.mem_cons_self),
      staff_names _ (by decide)⟩
    (by decide : _ ≤ ({} : Limits).maxDepth) (by decide) hkey hnumber
  refine ⟨hagrees.2 fun h => ?_, .comparison ⟨.simple ageOfManager, .greaterThanEquals,
    .one (.integer ⟨12, by decide, by decide⟩)⟩, by cbv⟩
  exact absurd ((hdiverges (.inl (by decide))).1 h).1 (by decide)

/-- The criteria that the age is minus zero. -/
def agedMinusZero : String := "\x7b\"age\":\x7b\"eq\":-0\x7d\x7d"

/-- Minus zero is an age in texts and none in JSON. -/
theorem agedMinusZero_disagrees :
    compile staff {} "Person" "this.age == -0" =
        .ok (.comparison ⟨.simple ⟨"Person", [], "age", .integer, false⟩, .eq,
          .one (.integer ⟨0, by decide, by decide⟩)⟩) ∧
      ∃ criteria e, Json.read? agedMinusZero = some (.object criteria) ∧
        convert staff {} "Person" criteria = .error e ∧
        e.message = "Expected <Integer> but found: <-0>" := by
  have hnumber : Json.IsNumber "-0".toList ⟨true, ['0'], none, none⟩ := ⟨by rfl, rfl⟩
  have hread : Json.read? agedMinusZero =
      some (.object [("age", .object [("eq", .number (.double (.zero .double true)))])]) := by
    have hnest : Json.read? (String.ofList (Json.nestText ["age", "eq"] "-0".toList)) = _ :=
      Json.read?_nestText hnumber (by decide)
    rw [numeric?_of_isMinusZero (by decide)] at hnest
    exact hnest
  exact ⟨by cbv, _, _, hread, rfl, rfl⟩

end Criteria
