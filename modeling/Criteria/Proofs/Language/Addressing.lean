import Criteria.Proofs.Language.Compiling
import Criteria.Proofs.Language.Conditions
import Criteria.Proofs.Operators.Dispatch
import Criteria.Proofs.Schema.Loading

/-! # Attributes that texts can name

A schema may give its members any names, but the names of a text are words: identifiers and reserved
words. So a text can compare an attribute of a type exactly if the attribute's name is a word
(`addressable_iff`), and reserved words are no exception. An attribute of any other name is loaded
all the same (`spacedDocument_not_addressable`).
-/

set_option autoImplicit false

namespace Criteria

/-! ## Comparisons of an attribute -/

/-- Some comparison of the predicate, at whatever depth, is one of the attribute of the type. -/
inductive Predicate.Compares (c : Catalog) (typeName name : String) : Predicate → Prop
  | conjunction {children : List Predicate} {p : Predicate} (hp : p ∈ children)
      (h : Compares c typeName name p) : Compares c typeName name (.conjunction children)
  | disjunction {children : List Predicate} {p : Predicate} (hp : p ∈ children)
      (h : Compares c typeName name p) : Compares c typeName name (.disjunction children)
  | existence {test : Existence} {relationship : RelationshipPath} {p : Predicate}
      (h : Compares c typeName name p) :
      Compares c typeName name (.existence test relationship (some p))
  | comparison {found : Comparison}
      (htype : c.target? found.operand.path.rootType found.operand.path.navigation = some typeName)
      (hname : found.operand.path.name = name) : Compares c typeName name (.comparison found)

/-- An attribute that is compared has a name of the sort that all names of the predicate are of. -/
theorem Predicate.Compares.name {c : Catalog} {typeName name : String} {p : Predicate}
    (h : p.Compares c typeName name) {Name : String → Prop} {root : String}
    (hnamed : p.Named Name root) : Name name := by
  induction h generalizing root with
  | conjunction hp _ ih =>
    cases hnamed with
    | conjunction inner => exact ih (inner _ hp)
  | disjunction hp _ ih =>
    cases hnamed with
    | disjunction inner => exact ih (inner _ hp)
  | existence _ ih =>
    cases hnamed with
    | existence _ inner => exact ih (inner _ rfl)
  | comparison _ hname =>
    cases hnamed with
    | comparison holds => exact hname ▸ holds.2

namespace Language

/-- Some text about the type compiles to a predicate that compares the attribute of that name. -/
def Addressable (c : Catalog) (typeName name : String) : Prop :=
  ∃ source p, compile c {} typeName source = .ok p ∧ p.Compares c typeName name

theorem Addressable.isWord {c : Catalog} {typeName name : String}
    (h : Addressable c typeName name) : IsWord name := by
  obtain ⟨source, p, hcompile, hcompares⟩ := h
  exact hcompares.name (compile_kept (.named c {} IsWord) hcompile)

/-! ## A value for every type -/

/-- A literal that attributes of the type are compared with. -/
def sample : ValueType → Phrase.Scalar
  | .string => .string "a"
  | .boolean => .boolean true
  | .integer | .long | .float | .double => .integer ⟨1, by decide, by decide⟩
  | .date => .string "2000-01-01"
  | .timestamp | .asOf => .string "2000-01-01T00:00:00Z"

theorem standsFor_sample (t : ValueType) : ∃ v, StandsFor t v (sample t).literal := by
  cases t
  all_goals exact ⟨_, rfl, nofun, rfl⟩

/-- The attribute of the type is equal to the sample. -/
def sampleCondition (typeName : String) (a : Attribute) : Condition where
  operand := .path ((Scope.root typeName).reference a).path
  comparator := .eq
  parameter := some (.scalar (sample a.valueType))
  takes := rfl
  finite := by
    rintro p ⟨⟩
    cases a.valueType <;> trivial

/-- Every attribute can be compared with the sample of its type. -/
theorem exists_verdict_sampleCondition (limits : Limits) (typeName : String) (a : Attribute) :
    ∃ v, (sampleCondition typeName a).verdict Operand.rangeRefusal limits =
      .ok (.comparison ⟨(Scope.root typeName).reference a, .eq, .one v⟩) := by
  obtain ⟨v, hv⟩ := standsFor_sample a.valueType
  have hasOf : ¬(((Scope.root typeName).reference a).valueType = .asOf ∧
      Comparator.eq = .notEq) := by
    simp
  exact ⟨v, (AttributeRef.compare_iff_of_mem a.valueType.equality_mem_operators.1).2
    (.one hasOf hv)⟩

/-- A text can compare every attribute that the catalog shows under a word. -/
theorem addressable_of_isWord {c : Catalog} {typeName : String} {a : Attribute}
    (ha : c.attribute? typeName a.name = some a) (hword : IsWord a.name) :
    Addressable c typeName a.name := by
  have hresolves : (sampleCondition typeName a).Resolves c typeName :=
    ⟨rfl, ⟨typeName, rfl, ha⟩, trivial⟩
  have hnamed : (sampleCondition typeName a).operand.Named IsWord := by
    refine ⟨?_, hword⟩
    intro name hname
    cases hname
  obtain ⟨extent, hcompile⟩ := (sampleCondition typeName a).compile_verdict hresolves hnamed
    (Nat.zero_le ({} : Limits).maxDepth)
    ((sampleCondition typeName a).sameTokens_text hresolves hnamed)
  obtain ⟨v, hverdict⟩ := exists_verdict_sampleCondition {} typeName a
  rw [hverdict] at hcompile
  exact ⟨(sampleCondition typeName a).text, _, hcompile, .comparison rfl rfl⟩

/-! ## Loaded schemas -/

/-- In a schema that is loaded, the attributes that texts can compare are those with a word for a
name. -/
theorem addressable_iff {d : SchemaDocument} {s : Schema} (h : d.toSchema = .ok s)
    {typeName : String} {a : Attribute} (ha : d.DeclaresAttribute typeName a) :
    Addressable ⟨s, []⟩ typeName a.name ↔ IsWord a.name := by
  have hfound : (Catalog.mk s []).attribute? typeName a.name = some a :=
    (SchemaDocument.attribute?_toSchema_iff h).2 ⟨ha, rfl⟩
  exact ⟨Addressable.isWord, addressable_of_isWord hfound⟩

/-- A type with an attribute that has a reserved word for its name. -/
def reservedDocument : SchemaDocument := ⟨[⟨"Door", [⟨"in", "asOf", false⟩], []⟩]⟩

theorem reservedDocument_addressable :
    ∃ s, reservedDocument.toSchema = .ok s ∧ Addressable ⟨s, []⟩ "Door" "in" := by
  have hdeclares : reservedDocument.DeclaresAttribute "Door" ⟨"in", .asOf, false⟩ :=
    ⟨_, List.mem_cons_self, rfl, List.mem_cons_self⟩
  exact ⟨_, rfl, (addressable_iff rfl hdeclares).2 (Keyword.isWord_text .inWord)⟩

/-- A type with an attribute whose name is two words. -/
def spacedDocument : SchemaDocument :=
  ⟨[⟨"Person", [⟨"first name", "string", false⟩], []⟩]⟩

theorem not_isWord_firstName : ¬ IsWord "first name" := by
  rintro ⟨c, r, hname, -, hpart⟩
  have hchars : "first name".toList = ['f', 'i', 'r', 's', 't', ' ', 'n', 'a', 'm', 'e'] := rfl
  rw [hchars, List.cons.injEq] at hname
  have hspace := hpart ' ' (by simp [← hname.2])
  revert hspace
  decide +kernel

/-- A document loads although no text compares one of its attributes. -/
theorem spacedDocument_not_addressable :
    ∃ s, spacedDocument.toSchema = .ok s ∧
      spacedDocument.DeclaresAttribute "Person" ⟨"first name", .string, false⟩ ∧
      ¬ Addressable ⟨s, []⟩ "Person" "first name" := by
  refine ⟨_, rfl, ⟨_, List.mem_cons_self, rfl, List.mem_cons_self⟩, ?_⟩
  intro h
  exact not_isWord_firstName h.isWord

end Language

end Criteria
