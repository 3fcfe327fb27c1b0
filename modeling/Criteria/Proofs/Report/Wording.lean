import Criteria.Proofs.Number.Numeral
import Criteria.Proofs.Text.Unbroken
import Criteria.Report.Diagnostic

/-! # What messages quote

Most of what a message is made of has no line breaks: its own words, numbers, and the text of
literals and JSON values, where breaks are escaped. A few texts are quoted as they are: names, keys,
the characters that a text stops at (`Rejection.quotes`, `ParseError.quotes`). So the compact form
of an error is a single line exactly if those are (`CompileError.oneLine_compact_iff`).
-/

set_option autoImplicit false

namespace Criteria

open Number Text

/-! ## Numbers -/

namespace Number

theorem unbroken_toDigits (n : Nat) : Unbroken (Nat.toDigits 10 n) :=
  unbroken_of_isDigit fun _ => isDigit_of_mem_toDigits

@[simp] theorem oneLine_nat (n : Nat) : OneLine n.repr := by
  have htext : (toString n).toList = Nat.toDigits 10 n := by simp
  show Unbroken (toString n).toList
  rw [htext]
  exact unbroken_toDigits n

@[simp] theorem oneLine_int (n : Int) : OneLine n.repr := by
  show Unbroken (toString n).toList
  rw [toList_toString_int]
  split
  · exact unbroken_cons.2 ⟨by decide, unbroken_toDigits _⟩
  · exact unbroken_toDigits _

namespace Decimal

theorem unbroken_positional (d : Decimal) : Unbroken d.positional := by
  have hdigits : Unbroken d.digitChars := unbroken_toDigits d.digits
  have hzeros := fun n => unbroken_replicate (c := '0') (by decide) n
  unfold positional
  dsimp only
  split
  · exact unbroken_append.2 ⟨hdigits, hzeros _⟩
  · split
    · exact unbroken_append.2 ⟨hdigits.subset (List.take_subset _ _),
        unbroken_cons.2 ⟨by decide, hdigits.subset (List.drop_subset _ _)⟩⟩
    · exact unbroken_append.2 ⟨unbroken_append.2 ⟨by decide, hzeros _⟩, hdigits⟩

theorem unbroken_scientific (d : Decimal) : Unbroken d.scientific := by
  have hdigits : Unbroken d.digitChars := unbroken_toDigits d.digits
  have hfraction : Unbroken (d.digitChars.drop 1) := hdigits.subset (List.drop_subset _ _)
  have hsign : isBreak (if d.magnitude < 0 then '-' else '+') = false := by
    split <;> decide
  unfold scientific
  dsimp only
  refine unbroken_append.2 ⟨unbroken_append.2 ⟨hdigits.subset (List.take_subset _ _), ?_⟩, ?_⟩
  · split
    · exact unbroken_nil
    · exact unbroken_cons.2 ⟨by decide, hfraction⟩
  · exact unbroken_cons.2 ⟨by decide, unbroken_cons.2 ⟨hsign, unbroken_toDigits _⟩⟩

end Decimal

namespace Binary

variable {f : Format}

/-- A sign in front breaks no line. -/
theorem unbroken_signed {negative : Bool} {magnitude : List Char} (h : Unbroken magnitude) :
    Unbroken (if negative then '-' :: magnitude else magnitude) := by
  split
  · exact unbroken_cons.2 ⟨by decide, h⟩
  · exact h

@[simp] theorem oneLine_plain (x : Binary f) : OneLine x.plain := by
  cases x with
  | nan =>
    show OneLine "NaN"
    decide
  | signed negative rank =>
    rw [plain, oneLine_ofList]
    apply unbroken_signed
    split
    · decide
    · split
      · decide
      · exact Decimal.unbroken_positional _

theorem oneLine_jsonText? {least most : Int} {x : Binary f} {s : String}
    (h : x.jsonText? least most = some s) : OneLine s := by
  cases x with
  | nan => cases h
  | signed negative rank =>
    rw [jsonText?] at h
    split at h
    · cases h
    · cases h
      rw [oneLine_ofList]
      apply unbroken_signed
      split
      · decide
      · dsimp only
        split
        · refine unbroken_append.2 ⟨Decimal.unbroken_positional _, ?_⟩
          split <;> decide
        · exact Decimal.unbroken_scientific _

end Binary

end Number

/-! ## Literals and JSON values -/

theorem Text.unbroken_escaped (c : Char) : Unbroken (Text.escaped c) := by
  unfold Text.escaped
  split
  iterate 5 decide
  rename_i hfeed hreturn _
  exact unbroken_cons.2 ⟨isBreak_eq_false.2 ⟨hfeed, hreturn⟩, unbroken_nil⟩

@[simp] theorem Text.oneLine_quoted (s : String) : OneLine (quoted s) := by
  rw [quoted, oneLine_ofList, unbroken_append]
  exact ⟨unbroken_cons.2 ⟨by decide, unbroken_flatMap unbroken_escaped _⟩, by decide⟩

namespace Json

theorem unbroken_hexPair : ∀ n < 0x20, Unbroken (hexPair n) := by
  decide

theorem unbroken_escaped (c : Char) : Unbroken (escaped c) := by
  unfold escaped
  split
  iterate 7 decide
  rename_i hfeed _ hreturn
  split
  · rename_i hcontrol
    exact unbroken_append.2 ⟨by decide, unbroken_hexPair _ hcontrol⟩
  · exact unbroken_cons.2 ⟨isBreak_eq_false.2 ⟨hfeed, hreturn⟩, unbroken_nil⟩

@[simp] theorem oneLine_stringText (s : String) : OneLine (stringText s) := by
  rw [stringText, oneLine_ofList, unbroken_append]
  exact ⟨unbroken_cons.2 ⟨by decide, unbroken_flatMap unbroken_escaped _⟩, by decide⟩

theorem oneLine_numeric (n : Numeric) : OneLine n.text := by
  have hnone : OneLine "null" := by decide
  cases n with
  | integer n => exact oneLine_int n
  | single x =>
    rw [Numeric.text]
    cases h : x.singleJson? with
    | none => exact hnone
    | some s => exact Binary.oneLine_jsonText? h
  | double x =>
    rw [Numeric.text]
    cases h : x.doubleJson? with
    | none => exact hnone
    | some s => exact Binary.oneLine_jsonText? h

mutual

/-- The compact text of a value is a single line. -/
theorem oneLine_compact : ∀ j : Json, OneLine j.compact
  | null => by decide
  | boolean b => by cases b <;> decide
  | number n => oneLine_numeric n
  | string s => oneLine_stringText s
  | array items => by
    have hitems := (oneLine_intercalate "," (by decide)).2 (oneLine_compactItems items)
    rw [compact, oneLine_append, oneLine_append]
    exact ⟨⟨by decide, hitems⟩, by decide⟩
  | object members => by
    have hmembers := (oneLine_intercalate "," (by decide)).2 (oneLine_compactMembers members)
    rw [compact, oneLine_append, oneLine_append]
    exact ⟨⟨by decide, hmembers⟩, by decide⟩

theorem oneLine_compactItems : ∀ items : List Json, ∀ s ∈ compactItems items, OneLine s
  | [] => fun _ hs => nomatch hs
  | item :: items => List.forall_mem_cons.2 ⟨oneLine_compact item, oneLine_compactItems items⟩

theorem oneLine_compactMembers : ∀ members : List (String × Json),
    ∀ s ∈ compactMembers members, OneLine s
  | [] => fun _ hs => nomatch hs
  | (name, value) :: members => by
    have hmember : OneLine (stringText name ++ ":" ++ value.compact) := by
      rw [oneLine_append, oneLine_append]
      exact ⟨⟨oneLine_stringText name, by decide⟩, oneLine_compact value⟩
    exact List.forall_mem_cons.2 ⟨hmember, oneLine_compactMembers members⟩

end

end Json

namespace Literal

mutual

/-- The text of a literal is a single line. -/
theorem oneLine_text : ∀ l : Literal, OneLine l.text
  | string s => oneLine_quoted s
  | integer n => oneLine_int n.toInt
  | float x => Binary.oneLine_plain x
  | boolean b => by cases b <;> decide
  | null => by decide
  | list items => by
    have hitems := (oneLine_intercalate ", " (by decide)).2 (oneLine_itemTexts items)
    rw [text, oneLine_append, oneLine_append]
    exact ⟨⟨by decide, hitems⟩, by decide⟩

theorem oneLine_itemTexts : ∀ items : List Literal, ∀ s ∈ itemTexts items, OneLine s
  | [] => fun _ hs => nomatch hs
  | item :: items => List.forall_mem_cons.2 ⟨oneLine_text item, oneLine_itemTexts items⟩

end

end Literal

/-! ## Messages -/

/-- What an argument is quoted with as it is. -/
def Argument.quotes : Argument → List String
  | unsupported text => [text]
  | _ => []

theorem Argument.oneLine_text (argument : Argument) :
    OneLine argument.text ↔ ∀ q ∈ argument.quotes, OneLine q := by
  cases argument with
  | empty => exact iff_of_true (by decide) (fun _ hq => nomatch hq)
  | value l => exact iff_of_true l.oneLine_text (fun _ hq => nomatch hq)
  | unsupported text => exact List.forall_mem_singleton.symm

/-- The texts that a rejection quotes as they are. -/
def Rejection.quotes : Rejection → List String
  | unknownType name => [name]
  | unknownRelationship name type valid => name :: type :: valid
  | unknownAttribute name type valid => name :: type :: valid
  | unknownField name type => [name, type]
  | wrongRoot expected found => [expected, found]
  | unknownOperation _ name => [name]
  | inapplicable _ attr _ => [attr]
  | unknownFunction name => [name]
  | inequalityNeedsNull _ found => found.quotes
  | argumentGiven _ found => found.quotes
  | valueRequired _ _ found => found.quotes
  | listRequired _ _ found => found.quotes
  | combinatorNeedsList name _ => [name]
  | existenceAtRoot test => [test]
  | existenceNeedsObject test _ => [test]
  | fieldNeedsObject name _ => [name]
  | orderNeedsObject name _ => [name]
  | orderNeedsEmptyObject name _ => [name]
  | unknownDirection name => [name]
  | _ => []

@[simp] theorem ValueType.oneLine_kindName (t : ValueType) : OneLine t.kindName := by
  cases t <;> decide

@[simp] theorem ValueType.oneLine_literalName (t : ValueType) : OneLine t.literalName := by
  cases t <;> decide

@[simp] theorem Comparator.oneLine_name (c : Comparator) : OneLine c.name := by
  cases c <;> decide

@[simp] theorem FunctionName.oneLine_text (f : FunctionName) : OneLine f.text := by
  cases f <;> decide

@[simp] theorem FunctionName.oneLine_domain (f : FunctionName) : OneLine f.domain := by
  cases f <;> decide

@[simp] theorem ErrorKind.oneLine_code (k : ErrorKind) : OneLine k.code := by
  cases k <;> decide

theorem Rejection.oneLine_message (r : Rejection) :
    OneLine r.message ↔ ∀ q ∈ r.quotes, OneLine q := by
  have hvalid : ∀ valid : List String,
      OneLine (", ".intercalate valid) ↔ ∀ q ∈ valid, OneLine q :=
    fun _ => oneLine_intercalate ", " (by decide)
  unfold message quotes
  -- First the message is taken apart, then what is left of it are its own words.
  cases r <;> dsimp only <;>
    simp only [toString, oneLine_append, hvalid, Argument.oneLine_text, List.forall_mem_cons,
      List.not_mem_nil, IsEmpty.forall_iff, implies_true, and_true] <;>
    simp +decide [Json.oneLine_compact, Literal.oneLine_text, and_assoc]

namespace Language

/-- What a token is quoted with as it is: strings are not escaped again. -/
def Token.quotes : Token → List String
  | string s => [s]
  | identifier name => [name]
  | _ => []

@[simp] theorem Keyword.oneLine_text (k : Keyword) : OneLine k.text := by
  cases k <;> decide

@[simp] theorem Symbol.oneLine_text (s : Symbol) : OneLine s.text := by
  cases s <;> decide

theorem Token.oneLine_text (t : Token) : OneLine t.text ↔ ∀ q ∈ t.quotes, OneLine q := by
  cases t with
  | integer n => exact iff_of_true (oneLine_int n.toInt) (fun _ hq => nomatch hq)
  | float x => exact iff_of_true x.oneLine_plain (fun _ hq => nomatch hq)
  | string s => simp +decide [text, quotes]
  | identifier name => simp [text, quotes]
  | keyword k => exact iff_of_true k.oneLine_text (fun _ hq => nomatch hq)
  | symbol s => exact iff_of_true s.oneLine_text (fun _ hq => nomatch hq)

@[simp] theorem Expected.oneLine_text (expected : Expected) : OneLine expected.text := by
  cases expected <;> decide

/-- The texts that an error of the textual language quotes as they are. -/
def ParseError.quotes : ParseError → List String
  | unexpectedToken found _ _ => found.quotes
  | unexpectedCharacter c _ => [c.toString]
  | invalidInteger text _ => [text]
  | invalidFloat text _ => [text]
  | invalidEscape c _ => [c.toString]
  | _ => []

theorem ParseError.oneLine_message (e : ParseError) :
    OneLine e.message ↔ ∀ q ∈ e.quotes, OneLine q := by
  unfold message quotes
  cases e <;> dsimp only <;>
    simp only [toString, oneLine_append, Token.oneLine_text, Expected.oneLine_text,
      List.forall_mem_cons, List.not_mem_nil, IsEmpty.forall_iff, implies_true, and_true] <;>
    simp +decide

end Language

/-! ## Diagnostics -/

/-- The texts that a cause quotes as they are. -/
def Cause.quotes : Cause → List String
  | rejected r => r.quotes
  | unparsable e => e.quotes

/-- The labels of the path on which an error lies. -/
def ErrorLocation.labels : ErrorLocation → List String
  | path p => p.labels
  | source _ => []

/-- The texts that an error and its place quote as they are. -/
def CompileError.quotes (e : CompileError) : List String := e.cause.quotes ++ e.location.labels

theorem Cause.oneLine_message (cause : Cause) :
    OneLine cause.message ↔ ∀ q ∈ cause.quotes, OneLine q := by
  cases cause with
  | rejected r => exact r.oneLine_message
  | unparsable e => exact e.oneLine_message

theorem ContextPath.oneLine_text (p : ContextPath) :
    OneLine p.text ↔ ∀ label ∈ p.labels, OneLine label := by
  have hlabels : OneLine (", ".intercalate p.labels) ↔ ∀ label ∈ p.labels, OneLine label :=
    oneLine_intercalate ", " (by decide)
  simp +decide [text, hlabels]

theorem Position.oneLine_text (p : Position) : OneLine p.text := by
  simp +decide [text, toString]

theorem Diagnostic.oneLine_codeText (d : Diagnostic) (showCode : Bool) :
    OneLine (d.codeText showCode) := by
  cases showCode with
  | false =>
    show OneLine ""
    decide
  | true => simp +decide [codeText, toString]

/-- A diagnostic on one line shows its context if it has no place in a source. -/
theorem Diagnostic.oneLine_line_iff (d : Diagnostic) (showCode : Bool) :
    OneLine (d.line showCode) ↔
      OneLine d.message ∧ (d.location = none → ∀ label ∈ d.context, OneLine label) := by
  unfold line
  cases d.location with
  | some l =>
    simp +decide [toString, l.span.start.oneLine_text, d.oneLine_codeText showCode]
  | none =>
    have hcontext : OneLine (ContextPath.mk d.context).text ↔ ∀ label ∈ d.context, OneLine label :=
      (ContextPath.mk d.context).oneLine_text
    cases hempty : d.context with
    | nil => simp +decide [toString, d.oneLine_codeText showCode]
    | cons label labels =>
      rw [hempty] at hcontext
      simp +decide [toString, d.oneLine_codeText showCode, hcontext, and_comm]

/-- The compact form of an error is a single line exactly if everything is that it quotes as it
is. -/
theorem CompileError.oneLine_compact_iff (e : CompileError) (showCode : Bool) :
    OneLine ((Diagnostic.ofError e).render .compact showCode) ↔ ∀ q ∈ e.quotes, OneLine q := by
  rw [Diagnostic.render, Diagnostic.oneLine_line_iff, quotes, List.forall_mem_append,
    ← Cause.oneLine_message]
  obtain ⟨cause, location⟩ := e
  cases location with
  | path p =>
    simp [Diagnostic.ofError, Diagnostic.withContext, Diagnostic.withMessage,
      ErrorLocation.labels, message]
  | source x =>
    simp [Diagnostic.ofError, Diagnostic.withExcerpt, Diagnostic.withSpan, Diagnostic.withMessage,
      ErrorLocation.labels, message]

end Criteria
