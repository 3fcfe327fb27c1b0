import Criteria.Proofs.Report.Quoting

/-! # Diagnostics on one line

Criteria are rejected with messages that quote their keys, and lie within a path of such keys
(`Structural.convert_quotes`). So what can break the line of a compact diagnostic is known for both
front ends: the root type, a name of the schema, a key of the criteria, and in a text that does not
parse, a string or an escape of a line break (`compact_oneLine_iff`). Strings are not escaped again
where they are quoted, so a text on a single line has a diagnostic on two lines
(`escapedContinuation_two_lines`).
-/

set_option autoImplicit false

namespace Criteria

open Text

/-! ## Keys -/

namespace Json

mutual

/-- The keys of all objects in a value. -/
def keys : Json → List String
  | object members => keysOfMembers members
  | array items => keysOfItems items
  | _ => []

/-- The keys of members and of all objects in their values. -/
def keysOfMembers : List (String × Json) → List String
  | [] => []
  | (name, value) :: members => name :: (value.keys ++ keysOfMembers members)

/-- The keys of all objects in a list of values. -/
def keysOfItems : List Json → List String
  | [] => []
  | item :: items => item.keys ++ keysOfItems items

end

variable {P : String → Prop}

theorem forall_keysOfMembers {name : String} {value : Json} {members : List (String × Json)} :
    (∀ key ∈ keysOfMembers ((name, value) :: members), P key) ↔
      P name ∧ (∀ key ∈ value.keys, P key) ∧ ∀ key ∈ keysOfMembers members, P key := by
  rw [keysOfMembers, List.forall_mem_cons, List.forall_mem_append]

theorem forall_keysOfItems {item : Json} {items : List Json} :
    (∀ key ∈ keysOfItems (item :: items), P key) ↔
      (∀ key ∈ item.keys, P key) ∧ ∀ key ∈ keysOfItems items, P key := by
  rw [keysOfItems, List.forall_mem_append]

end Json

/-! ## Errors within criteria -/

/-- The labels of the path are of the given sort. -/
def ContextPath.LabelsOnly (P : String → Prop) (p : ContextPath) : Prop :=
  ∀ label ∈ p.labels, P label

variable {P : String → Prop} {c : Catalog} {limits : Limits}

theorem ContextPath.LabelsOnly.push {p : ContextPath} (h : p.LabelsOnly P) {label : String}
    (hlabel : P label) : (p.push label).LabelsOnly P :=
  List.forall_mem_append.2 ⟨h, List.forall_mem_singleton.2 hlabel⟩

theorem Rejection.QuotesOnly.within {r : Rejection} (h : r.QuotesOnly P) {context : ContextPath}
    (hcontext : context.LabelsOnly P) : (r.within context).QuotesOnly P :=
  List.forall_mem_append.2 ⟨h, hcontext⟩

namespace Structural

theorem within_quotes {α : Type} {context : ContextPath} (hcontext : context.LabelsOnly P)
    {r : Except Rejection α} (h : FailsWith (Rejection.QuotesOnly P) r) :
    FailsWith (CompileError.QuotesOnly P) (within context r) := by
  cases r with
  | ok a => exact .ok a
  | error r => exact .error ((h r rfl).within hcontext)

theorem checkDepth_quotes {context : ContextPath} (hcontext : context.LabelsOnly P) (depth : Nat) :
    FailsWith (CompileError.QuotesOnly P) (checkDepth limits context depth) := by
  have htooDeep : (Rejection.tooDeep limits.maxDepth).QuotesOnly P := nofun
  unfold checkDepth
  split
  · exact .error (htooDeep.within hcontext)
  · exact .ok ()

theorem checkMembers_quotes {context : ContextPath} (hcontext : context.LabelsOnly P) (depth : Nat)
    (members : List (String × Json)) :
    FailsWith (CompileError.QuotesOnly P) (checkMembers limits context depth members) := by
  have hmixed : Rejection.mixedCombinators.QuotesOnly P := nofun
  unfold checkMembers
  apply (checkDepth_quotes hcontext depth).bind
  intro _ _
  split
  · exact .error (hmixed.within hcontext)
  · exact .ok ()

theorem functionOf_quotes (name : FunctionName) (members : List (String × Json)) (found : Json) :
    FailsWith (Rejection.QuotesOnly P) (functionOf name members found) := by
  unfold functionOf
  split
  · split
    · split
      · exact .error nofun
      · exact .ok _
    · exact .error nofun
  all_goals exact .ok _

theorem Combinator.oneLine_key (combinator : Combinator) : OneLine combinator.key := by
  cases combinator <;> decide

/-- The label of an item of a combinator. -/
theorem Combinator.oneLine_label (combinator : Combinator) (index : Nat) :
    OneLine s!"{combinator.key}[{index}]" := by
  simp +decide [toString, combinator.oneLine_key]

theorem argumentOf_quotes (hplain : ∀ q, OneLine q → P q) (parameter : Json) :
    ∀ q ∈ (argumentOf parameter).quotes, P q := by
  unfold argumentOf
  split
  · nofun
  · split
    · nofun
    · exact List.forall_mem_singleton.2 (hplain _ parameter.oneLine_compact)

mutual

theorem ofOperators_quotes (hplain : ∀ q, OneLine q → P q) (members : List (String × Json))
    {a : AttributeRef} (ha : P a.name) {context : ContextPath} (hcontext : context.LabelsOnly P)
    {depth : Nat} {skipped : List String} {p : Predicate}
    (hkeys : ∀ key ∈ Json.keysOfMembers members, P key) :
    FailsWith (CompileError.QuotesOnly P)
      (ofOperators limits a context depth skipped p members) := by
  cases members with
  | nil => exact .ok p
  | cons m members =>
    obtain ⟨name, parameter⟩ := m
    obtain ⟨hname, hvalue, hmembers⟩ := Json.forall_keysOfMembers.1 hkeys
    -- What is found so far makes no difference to the errors of the operators behind.
    have htail : ∀ {q : Predicate}, FailsWith (CompileError.QuotesOnly P)
        (ofOperators limits a context depth skipped q members) :=
      ofOperators_quotes hplain members ha hcontext hmembers
    rw [ofOperators]
    split
    · exact htail
    · apply (within_quotes hcontext (ValueType.resolveOperator_quotes _ hname)).bind
      rintro ⟨operator, arity⟩ _
      cases operator with
      | compare comparator =>
        have hcompare : FailsWith (Rejection.QuotesOnly P)
            (a.compare limits comparator (argumentOf parameter)) :=
          AttributeRef.compare_quotes (hplain _ comparator.oneLine_name)
            (argumentOf_quotes hplain parameter)
        exact (within_quotes hcontext hcompare).bind fun q _ => htail
      | function function =>
        exact (ofFunction_quotes hplain parameter ha hcontext hvalue).bind fun q _ => htail
termination_by structural members

theorem ofFunction_quotes (hplain : ∀ q, OneLine q → P q) (parameter : Json) {a : AttributeRef}
    (ha : P a.name) {context : ContextPath} (hcontext : context.LabelsOnly P) {depth : Nat}
    {name : FunctionName} (hkeys : ∀ key ∈ parameter.keys, P key) :
    FailsWith (CompileError.QuotesOnly P) (ofFunction limits a context depth name parameter) := by
  have hempty : Rejection.emptyNode.QuotesOnly P := nofun
  have hobject : ∀ found, (Rejection.functionNeedsObject name found).QuotesOnly P := fun _ => nofun
  cases parameter with
  | object members =>
    rw [ofFunction]
    split
    · exact .error (hempty.within hcontext)
    · apply (within_quotes hcontext (functionOf_quotes name members _)).bind
      rintro ⟨function, skipped⟩ _
      apply (within_quotes hcontext (AttributeRef.apply_quotes ha)).bind
      intro derived hderived
      have hname : P derived.name := by
        rw [AttributeRef.name_of_apply (within_eq_ok.1 hderived)]
        exact ha
      apply (checkDepth_quotes hcontext _).bind
      intro _ _
      exact ofOperators_quotes hplain members hname hcontext hkeys
  | array items =>
    rw [ofFunction.eq_def]
    cases items with
    | nil => exact .error (hempty.within hcontext)
    | cons item items => exact .error ((hobject _).within hcontext)
  | _ =>
    rw [ofFunction.eq_def]
    exact .error ((hobject _).within hcontext)
termination_by structural parameter

end

/-- A key for a field is of the given sort. -/
def Key.FieldOnly (P : String → Prop) (key : Key) : Prop := ∀ name, key = .field name → P name

theorem Key.FieldOnly.ofText {key : String} (h : P key) : (Key.ofText key).FieldOnly P := by
  intro name hname
  unfold Key.ofText at hname
  split at hname
  · cases hname
  · cases hname
  · cases hname
    exact h

theorem shapeError_quotes (hplain : ∀ q, OneLine q → P q) {scope : Scope} {context : ContextPath}
    (hcontext : context.LabelsOnly P) {key : Key} (hkey : key.FieldOnly P) (value : Json) :
    (shapeError scope context key value).QuotesOnly P := by
  have hempty : Rejection.emptyNode.QuotesOnly P := nofun
  cases key with
  | combinator combinator =>
    have hlabel : P combinator.key := hplain _ combinator.oneLine_key
    unfold shapeError
    dsimp only
    split
    · exact hempty.within (hcontext.push hlabel)
    · have hlist : (Rejection.combinatorNeedsList combinator.key value).QuotesOnly P :=
        List.forall_mem_singleton.2 hlabel
      exact hlist.within (hcontext.push hlabel)
  | existence test =>
    have hmethod : ∀ q ∈ [test.method], P q :=
      List.forall_mem_singleton.2 (hplain _ test.oneLine_method)
    unfold shapeError
    dsimp only
    split
    · have hroot : (Rejection.existenceAtRoot test.method).QuotesOnly P := hmethod
      exact hroot.within hcontext
    · have hobject : (Rejection.existenceNeedsObject test.method value).QuotesOnly P := hmethod
      exact hobject.within hcontext
  | field name =>
    have hname : P name := hkey name rfl
    unfold shapeError
    dsimp only
    split
    · exact hempty.within (hcontext.push hname)
    · have hobject : (Rejection.fieldNeedsObject name value).QuotesOnly P :=
        List.forall_mem_singleton.2 hname
      exact hobject.within (hcontext.push hname)

mutual

theorem ofMembers_quotes (hP : c.Admits P) (members : List (String × Json)) {scope : Scope}
    (hscope : scope.Quotable P) {context : ContextPath} (hcontext : context.LabelsOnly P)
    {depth : Nat} {p : Predicate} (hkeys : ∀ key ∈ Json.keysOfMembers members, P key) :
    FailsWith (CompileError.QuotesOnly P) (ofMembers c limits scope context depth p members) := by
  cases members with
  | nil => exact .ok p
  | cons m members =>
    obtain ⟨key, value⟩ := m
    obtain ⟨hkey, hvalue, hmembers⟩ := Json.forall_keysOfMembers.1 hkeys
    rw [ofMembers]
    exact (ofEntry_quotes hP value hscope hcontext (.ofText hkey) hvalue).bind fun q _ =>
      ofMembers_quotes hP members hscope hcontext hmembers
termination_by structural members

theorem ofEntry_quotes (hP : c.Admits P) (value : Json) {scope : Scope}
    (hscope : scope.Quotable P) {context : ContextPath} (hcontext : context.LabelsOnly P)
    {depth : Nat} {key : Key} (hkey : key.FieldOnly P) (hkeys : ∀ key ∈ value.keys, P key) :
    FailsWith (CompileError.QuotesOnly P) (ofEntry c limits scope context depth key value) := by
  have hshape : ∀ value, (shapeError scope context key value).QuotesOnly P :=
    shapeError_quotes hP.plain hcontext hkey
  cases value with
  | object members =>
    rw [ofEntry.eq_def]
    dsimp only
    cases key with
    | combinator combinator => exact .error (hshape _)
    | existence test =>
      dsimp only
      split
      · exact .error (hshape _)
      · split
        · exact .ok _
        · -- A filter is read in a context of its own.
          have hnone : ContextPath.LabelsOnly P {} := nofun
          apply (checkMembers_quotes hnone _ _).bind
          intro _ _
          exact (ofMembers_quotes hP members hscope.rebase hnone hkeys).bind fun filter _ => .ok _
    | field name =>
      have hname : P name := hkey name rfl
      dsimp only
      split
      · exact .error (hshape _)
      · have hinner : (context.push name).LabelsOnly P := hcontext.push hname
        apply (within_quotes hinner (Catalog.field_quotes hscope hname)).bind
        intro found hfound
        rcases Catalog.field_iff.1 (within_eq_ok.1 hfound) with
          ⟨a, ha, rfl⟩ | ⟨-, r, hr, rfl⟩
        · obtain ⟨e, he, hmem, -⟩ := Catalog.exists_mem_of_attribute? ha
          have hattribute : P (scope.reference a).name :=
            hP.names _ (Schema.attribute_mem_names he hmem)
          exact (checkDepth_quotes hinner _).bind fun _ _ =>
            ofOperators_quotes hP.plain members hattribute hinner hkeys
        · have htarget := Catalog.target_quotable hP scope hr
          exact (checkMembers_quotes hinner _ _).bind fun _ _ =>
            ofMembers_quotes hP members htarget hinner hkeys
  | array items =>
    rw [ofEntry.eq_def]
    cases items with
    | nil => exact .error (hshape _)
    | cons item items =>
      obtain ⟨hitem, hitems⟩ := Json.forall_keysOfItems.1 hkeys
      cases key with
      | combinator combinator =>
        exact (ofItem_quotes hP item hscope hcontext hitem).bind fun p _ =>
          ofItems_quotes hP items hscope hcontext hitems
      | _ => exact .error (hshape _)
  | _ =>
    rw [ofEntry.eq_def]
    exact .error (hshape _)
termination_by structural value

theorem ofItem_quotes (hP : c.Admits P) (item : Json) {scope : Scope} (hscope : scope.Quotable P)
    {context : ContextPath} (hcontext : context.LabelsOnly P) {depth : Nat}
    {combinator : Combinator} {index : Nat} (hkeys : ∀ key ∈ item.keys, P key) :
    FailsWith (CompileError.QuotesOnly P)
      (ofItem c limits scope context depth combinator index item) := by
  have hinner : (context.push s!"{combinator.key}[{index}]").LabelsOnly P :=
    hcontext.push (hP.plain _ (combinator.oneLine_label index))
  have hobject : ∀ found, (Rejection.itemNeedsObject found).QuotesOnly P := fun _ => nofun
  cases item with
  | object members =>
    rw [ofItem]
    exact (checkMembers_quotes hinner _ _).bind fun _ _ =>
      ofMembers_quotes hP members hscope hinner hkeys
  | _ =>
    rw [ofItem.eq_def]
    exact .error ((hobject _).within hinner)
termination_by structural item

theorem ofItems_quotes (hP : c.Admits P) (items : List Json) {scope : Scope}
    (hscope : scope.Quotable P) {context : ContextPath} (hcontext : context.LabelsOnly P)
    {depth : Nat} {combinator : Combinator} {index : Nat} {p : Predicate}
    (hkeys : ∀ key ∈ Json.keysOfItems items, P key) :
    FailsWith (CompileError.QuotesOnly P)
      (ofItems c limits scope context depth combinator index p items) := by
  cases items with
  | nil => exact .ok p
  | cons item items =>
    obtain ⟨hitem, hitems⟩ := Json.forall_keysOfItems.1 hkeys
    rw [ofItems]
    exact (ofItem_quotes hP item hscope hcontext hitem).bind fun q _ =>
      ofItems_quotes hP items hscope hcontext hitems
termination_by structural items

end

/-- An error of criteria quotes texts of a sort to which the root type, the names of the schema,
the keys of the criteria and all texts on one line belong. -/
theorem convert_quotes (hP : c.Admits P) {rootType : String} (hroot : P rootType)
    {criteria : List (String × Json)} (hkeys : ∀ key ∈ (Json.object criteria).keys, P key) :
    FailsWith (CompileError.QuotesOnly P) (convert c limits rootType criteria) := by
  have hnone : ContextPath.LabelsOnly P {} := nofun
  unfold convert
  apply (within_quotes hnone (Catalog.root_quotes hroot)).bind
  intro scope hscope
  have hquotable := Catalog.root_quotable hP (within_eq_ok.1 hscope)
  exact (checkMembers_quotes hnone _ _).bind fun _ _ =>
    ofMembers_quotes hP criteria hquotable hnone hkeys

end Structural

/-! ## Both front ends -/

/-- What may break the line of a compact diagnostic. For a text, it is the root type, a name of the
schema, or a line break that a text quotes that does not parse; for criteria, the root type, a name
of the schema or a key. -/
theorem compact_oneLine_iff (c : Catalog) (limits : Limits) (rootType : String) (showCode : Bool) :
    (∀ source error, Language.compile c limits rootType source = .error error →
      (OneLine ((Diagnostic.ofError error).render .compact showCode) ↔
        ¬error.cause.QuotesBreak ∧
          ∀ q ∈ error.quotes, q = rootType ∨ q ∈ c.schema.names → OneLine q)) ∧
    ∀ criteria error, Structural.convert c limits rootType criteria = .error error →
      (OneLine ((Diagnostic.ofError error).render .compact showCode) ↔
        ∀ q ∈ error.quotes,
          q = rootType ∨ q ∈ c.schema.names ∨ q ∈ (Json.object criteria).keys → OneLine q) := by
  constructor
  · intro source error h
    have hP : c.Admits fun q => OneLine q ∨ q = rootType ∨ q ∈ c.schema.names :=
      ⟨fun q hq => .inl hq, fun q hq => .inr (.inr hq)⟩
    obtain ⟨hbroken, hquotes⟩ := Language.compile_quotes hP (.inr (.inl rfl)) h
    rw [CompileError.oneLine_compact_iff]
    constructor
    · exact fun hall => ⟨fun hbreak => hbroken hbreak hall, fun q hq _ => hall q hq⟩
    · exact fun ⟨hbreak, hforeign⟩ q hq => (hquotes hbreak q hq).elim id (hforeign q hq)
  · intro criteria error h
    have hP : c.Admits fun q =>
        OneLine q ∨ q = rootType ∨ q ∈ c.schema.names ∨ q ∈ (Json.object criteria).keys :=
      ⟨fun q hq => .inl hq, fun q hq => .inr (.inr (.inl hq))⟩
    have hquotes := Structural.convert_quotes hP (.inr (.inl rfl))
      (fun key hkey => .inr (.inr (.inr hkey))) error h
    rw [CompileError.oneLine_compact_iff]
    constructor
    · exact fun hall q hq _ => hall q hq
    · exact fun hforeign q hq => (hquotes q hq).elim id (hforeign q hq)

/-- Criteria with a line break in a key. -/
def brokenCriteria : List (String × Json) := [("sho\ne", .object [("isNull", .object [])])]

/-- The error of these criteria: persons have no such field. -/
def brokenCriteriaError : CompileError :=
  (Rejection.unknownField "sho\ne" "Person").within ⟨["sho\ne"]⟩

/-- The error about shoes is shown on one line, and the one about the broken key is not. -/
theorem staff_oneLine :
    OneLine ((Diagnostic.ofError Language.shoelessError).render .compact true) ∧
      ¬OneLine ((Diagnostic.ofError brokenCriteriaError).render .compact true) := by
  obtain ⟨htext, hcriteria⟩ := compact_oneLine_iff staff {} "Person" true
  have hshoeless : ∀ q ∈ Language.shoelessError.quotes, OneLine q := by decide
  constructor
  · exact (htext _ _ Language.compile_shoelessText).2 ⟨not_false, fun q hq _ => hshoeless q hq⟩
  · intro h
    have hkey : "sho\ne" ∈ (Json.object brokenCriteria).keys := List.mem_cons_self
    exact absurd ((hcriteria brokenCriteria _ rfl).1 h "sho\ne" (by decide) (.inr (.inr hkey)))
      (by decide)

/-- A string with an escaped line break behind a text that is complete, all on one line. -/
def escapedContinuation : String := "all 'a\\nb'"

/-- The error quotes the string with the line break itself, and so does its compact form. -/
theorem escapedContinuation_two_lines :
    OneLine escapedContinuation ∧
      ∃ error, Language.compile staff {} "Person" escapedContinuation = .error error ∧
        (Diagnostic.ofError error).render .compact false =
          "1:5: error: Expected '&', '|' or end of input but found '\"a\nb\"'" ∧
        ¬OneLine ((Diagnostic.ofError error).render .compact false) := by
  refine ⟨by decide, ⟨.unparsable (.unexpectedToken (.string "a\nb") .continuation ⟨4, 10⟩),
    .source ⟨1, 5, "all 'a\\nb'", (4, 10)⟩⟩, ?_, ?_, ?_⟩
  · cbv
  · decide
  · decide

end Criteria
