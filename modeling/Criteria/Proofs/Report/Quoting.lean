import Criteria.Proofs.Language.ErrorPlaces
import Criteria.Proofs.Language.Faults
import Criteria.Proofs.Report.Wording
import Criteria.Proofs.Results

/-! # Where quoted texts come from

Resolving names and applying operators is rejected with messages that quote the names of the schema,
the names that are looked up, and arguments (`Catalog.field_quotes`, `AttributeRef.compare_quotes`).
The names in a text are words, so an error of a text quotes no line break except from the root type,
from the schema, or from a string or an escape that does not parse (`Language.compile_quotes`).
-/

set_option autoImplicit false

namespace Criteria

open Text

/-! ## Sorts of quoted texts -/

/-- The rejection quotes texts of the given sort only. -/
def Rejection.QuotesOnly (P : String → Prop) (r : Rejection) : Prop := ∀ q ∈ r.quotes, P q

/-- The error quotes texts of the given sort only, its place included. -/
def CompileError.QuotesOnly (P : String → Prop) (e : CompileError) : Prop := ∀ q ∈ e.quotes, P q

/-- The names of a type and its members, and of the types that they lead to. Types are named in
messages without the qualification in front, too. -/
def EntityType.names (e : EntityType) : List String :=
  e.name :: e.simpleName :: (e.attributes.map (·.name) ++
    e.relationships.flatMap fun r => [r.name, r.target, Criteria.simpleName r.target])

/-- The names of all types and members. -/
def Schema.names (s : Schema) : List String := s.types.flatMap EntityType.names

namespace Schema

variable {s : Schema} {e : EntityType}

theorem name_mem_names (he : e ∈ s.types) : e.name ∈ s.names :=
  List.mem_flatMap.2 ⟨e, he, by simp [EntityType.names]⟩

theorem simpleName_mem_names (he : e ∈ s.types) : Criteria.simpleName e.name ∈ s.names :=
  List.mem_flatMap.2 ⟨e, he, by simp [EntityType.names, EntityType.simpleName]⟩

theorem attribute_mem_names (he : e ∈ s.types) {a : Attribute} (ha : a ∈ e.attributes) :
    a.name ∈ s.names := by
  refine List.mem_flatMap.2 ⟨e, he, ?_⟩
  simp only [EntityType.names, List.mem_cons, List.mem_append]
  exact .inr (.inr (.inl (List.mem_map_of_mem ha)))

theorem relationship_mem_names (he : e ∈ s.types) {r : Relationship} (hr : r ∈ e.relationships)
    {name : String} (hname : name ∈ [r.name, r.target, Criteria.simpleName r.target]) :
    name ∈ s.names := by
  refine List.mem_flatMap.2 ⟨e, he, ?_⟩
  simp only [EntityType.names, List.mem_cons, List.mem_append]
  exact .inr (.inr (.inr (List.mem_flatMap.2 ⟨r, hr, hname⟩)))

end Schema

/-- All texts on one line and the names of the schema are of the given sort. -/
structure Catalog.Admits (c : Catalog) (P : String → Prop) : Prop where
  plain : ∀ q, OneLine q → P q
  names : ∀ q ∈ c.schema.names, P q

/-- The current type has a name of the given sort, with its qualification and without. -/
structure Scope.Quotable (P : String → Prop) (s : Scope) : Prop where
  full : P s.currentType
  simple : P (simpleName s.currentType)

variable {P : String → Prop} {c : Catalog} {s target : Scope} {limits : Limits}

theorem Scope.Quotable.rebase (h : s.Quotable P) : s.rebase.Quotable P := ⟨h.full, h.simple⟩

/-! ## Names -/

namespace Catalog

theorem requireType_quotes {typeName : String} (h : P typeName) :
    FailsWith (Rejection.QuotesOnly P) (c.requireType typeName) := by
  unfold requireType
  cases c.entity? typeName with
  | some e => exact .ok e
  | none => exact .error (List.forall_mem_singleton.2 h)

/-- The current type is named in messages without its qualification. -/
theorem requireType_quotable (hs : s.Quotable P) {e : EntityType}
    (he : c.requireType s.currentType = .ok e) : P (simpleName e.name) := by
  rw [name_of_entity? (requireType_iff.1 he)]
  exact hs.simple

theorem root_quotes {rootType : String} (h : P rootType) :
    FailsWith (Rejection.QuotesOnly P) (c.root rootType) :=
  (requireType_quotes h).map _

theorem checkRoot_quotes (hs : s.Quotable P) {name : String} (hname : P name) :
    FailsWith (Rejection.QuotesOnly P) (checkRoot s name) := by
  unfold checkRoot
  dsimp only
  split
  · exact .ok ()
  · exact .error (List.forall_mem_cons.2 ⟨hs.simple, List.forall_mem_singleton.2 hname⟩)

theorem attributeNames_mem_names {typeName name : String} (h : name ∈ c.attributeNames typeName) :
    name ∈ c.schema.names := by
  obtain ⟨e, he, a, ha, rfl⟩ := MemberKind.attributes.exists_mem_of_mem_names h
  exact Schema.attribute_mem_names he ha

theorem relationshipNames_mem_names {typeName name : String}
    (h : name ∈ c.relationshipNames typeName) : name ∈ c.schema.names := by
  obtain ⟨e, he, r, hr, rfl⟩ := MemberKind.relationships.exists_mem_of_mem_names h
  exact Schema.relationship_mem_names he hr List.mem_cons_self

section

variable (hP : c.Admits P)

include hP

theorem root_quotable {rootType : String} (h : c.root rootType = .ok s) : s.Quotable P := by
  obtain ⟨⟨e, he⟩, rfl⟩ := root_iff.1 h
  have hmem : e ∈ c.schema.types := List.mem_of_find?_eq_some he
  have hname := name_of_entity? he
  constructor
  · exact hP.names _ (hname ▸ Schema.name_mem_names hmem)
  · exact hP.names _ (hname ▸ Schema.simpleName_mem_names hmem)

theorem target_quotable (s : Scope) {typeName name : String} {r : Relationship}
    (h : c.relationship? typeName name = some r) : (s.enter name r.target).Quotable P := by
  obtain ⟨e, he, hr, -⟩ := exists_mem_of_relationship? h
  constructor
  · exact hP.names _ (Schema.relationship_mem_names he hr (by simp [Scope.enter]))
  · exact hP.names _ (Schema.relationship_mem_names he hr (by simp [Scope.enter]))

theorem navigate_quotable {name : String} (h : c.navigate s name = .ok target) :
    target.Quotable P := by
  obtain ⟨r, hr, rfl⟩ := navigate_iff.1 h
  exact target_quotable hP s hr

/-- A name that is rejected is quoted with the type and the names of its members. -/
theorem resolve_quotes {α : Type} {k : MemberKind α}
    (hquotes : ∀ name type valid, (k.unknown name type valid).quotes = name :: type :: valid)
    (hnames : ∀ {typeName name}, name ∈ k.names c typeName → name ∈ c.schema.names)
    (hs : s.Quotable P) {name : String} (hname : P name) :
    FailsWith (Rejection.QuotesOnly P) (k.resolve c s name) := by
  refine MemberKind.failsWith_resolve (requireType_quotes hs.full) fun e he => ?_
  rw [Rejection.QuotesOnly, hquotes]
  refine List.forall_mem_cons.2 ⟨hname, List.forall_mem_cons.2 ⟨?_, ?_⟩⟩
  · exact requireType_quotable hs he
  · exact fun q hq => hP.names q (hnames hq)

theorem navigate_quotes (hs : s.Quotable P) {name : String} (hname : P name) :
    FailsWith (Rejection.QuotesOnly P) (c.navigate s name) := by
  rw [navigate_eq_map]
  exact (resolve_quotes hP (fun _ _ _ => rfl) relationshipNames_mem_names hs hname).map _

theorem attributeRef_quotes (hs : s.Quotable P) {name : String} (hname : P name) :
    FailsWith (Rejection.QuotesOnly P) (c.attributeRef s name) := by
  rw [attributeRef_eq_map]
  exact (resolve_quotes hP (fun _ _ _ => rfl) attributeNames_mem_names hs hname).map _

theorem navigateAll_quotable (hs : s.Quotable P) {names : List String}
    (h : c.navigateAll s names = .ok target) : target.Quotable P := by
  unfold navigateAll at h
  induction names generalizing s with
  | nil =>
    cases h
    exact hs
  | cons name names ih =>
    rw [List.foldlM_cons, bind_eq_ok] at h
    obtain ⟨next, hnext, h⟩ := h
    exact ih (navigate_quotable hP hnext) h

theorem navigateAll_quotes (hs : s.Quotable P) {names : List String} (h : ∀ name ∈ names, P name) :
    FailsWith (Rejection.QuotesOnly P) (c.navigateAll s names) := by
  unfold navigateAll
  induction names generalizing s with
  | nil => exact .ok s
  | cons name names ih =>
    obtain ⟨hname, h⟩ := List.forall_mem_cons.1 h
    rw [List.foldlM_cons]
    exact (navigate_quotes hP hs hname).bind fun next hnext =>
      ih (navigate_quotable hP hnext) h

end

theorem field_quotes (hs : s.Quotable P) {name : String} (hname : P name) :
    FailsWith (Rejection.QuotesOnly P) (c.field s name) := by
  unfold field
  apply (requireType_quotes hs.full).bind
  intro e he
  split
  · exact .ok _
  · split
    · exact .ok _
    · have htype : P (simpleName e.name) := requireType_quotable hs he
      exact .error (List.forall_mem_cons.2 ⟨hname, List.forall_mem_singleton.2 htype⟩)

end Catalog

/-! ## Operators -/

theorem Existence.oneLine_method (test : Existence) : OneLine test.method := by
  cases test <;> decide

theorem ValueType.resolveOperator_quotes (t : ValueType) {name : String} (h : P name) :
    FailsWith (Rejection.QuotesOnly P) (t.resolveOperator name) := by
  unfold resolveOperator
  split
  · exact .ok _
  · exact .error (List.forall_mem_singleton.2 h)

namespace AttributeRef

variable {a : AttributeRef} {comparator : Comparator} {argument : Argument}

theorem apply_quotes {function : AttributeFunction} (h : P a.name) :
    FailsWith (Rejection.QuotesOnly P) (a.apply function) := by
  unfold apply
  split
  · exact .error (List.forall_mem_singleton.2 h)
  · split
    · split
      · exact .error nofun
      · exact .ok _
    · exact .ok _

/-- A function of an attribute goes by the name of the attribute. -/
theorem name_of_apply {b : AttributeRef} {function : AttributeFunction}
    (h : a.apply function = .ok b) : b.name = a.name := by
  unfold apply at h
  split at h
  · cases h
  · split at h
    · split at h
      · cases h
      · cases h
        rfl
    · cases h
      rfl

theorem value_quotes (l : Literal) : FailsWith (Rejection.QuotesOnly P) (a.value l) := by
  unfold value
  split
  · exact .ok _
  · exact .error nofun

theorem compareNone_quotes (h : ∀ q ∈ argument.quotes, P q) :
    FailsWith (Rejection.QuotesOnly P) (a.compareNone comparator argument) := by
  unfold compareNone
  split
  · split
    · exact .ok _
    · exact .ok _
  · exact .error h

theorem compareOne_quotes (h : ∀ q ∈ argument.quotes, P q) :
    FailsWith (Rejection.QuotesOnly P) (a.compareOne comparator argument) := by
  unfold compareOne
  split
  · exact .error nofun
  · split
    · exact .ok _
    · exact .ok _
    · exact .error nofun
  · split
    · exact .error h
    · exact (value_quotes _).map _
  · exact .error h

theorem listValue_quotes (l : Literal) :
    FailsWith (Rejection.QuotesOnly P) (a.listValue comparator l) := by
  unfold listValue
  split
  · exact .error nofun
  · split
    · exact .error nofun
    · exact value_quotes _

theorem compareMany_quotes (h : ∀ q ∈ argument.quotes, P q) :
    FailsWith (Rejection.QuotesOnly P) (a.compareMany limits comparator argument) := by
  unfold compareMany
  split
  · exact .error nofun
  · split
    · exact .error nofun
    · split
      · exact .error nofun
      · apply FailsWith.map
        intro r hr
        obtain ⟨l, -, hl⟩ := exists_mem_of_mapM_eq_error hr
        exact listValue_quotes l r hl
  · exact .error h

/-- A comparison that is rejected quotes its operator or its argument. -/
theorem compare_quotes (hname : P comparator.name) (h : ∀ q ∈ argument.quotes, P q) :
    FailsWith (Rejection.QuotesOnly P) (a.compare limits comparator argument) := by
  have hunknown : (Rejection.unknownOperation a.valueType comparator.name).QuotesOnly P :=
    List.forall_mem_singleton.2 hname
  unfold compare
  split
  · exact .error hunknown
  · split
    · split
      · exact .ok _
      · exact .error h
    · split
      · exact compareNone_quotes h
      · exact compareOne_quotes h
      · exact compareMany_quotes h
      · exact .error hunknown

end AttributeRef

/-! ## Texts -/

namespace Language

open Grammar Criteria.Language.Derivation

/-- Every name on the path is of the given sort, that of its root included. -/
structure Path.Quotable (P : String → Prop) (p : Path) : Prop where
  root : ∀ name, p.root.value = .named name → P name
  segments : p.Named P

/-- Every name in the term is of the given sort, those of functions included. -/
def Term.Quotable (P : String → Prop) : Term → Prop
  | path p => p.Quotable P
  | call _ name argument _ => P name.value ∧ argument.Quotable P

theorem isPath_quotable (hwords : ∀ name, IsWord name → P name) {ts : Tokens} {p : Path}
    (h : IsPath ts p) (hts : LexicalTokens ts) : p.Quotable P where
  root := by
    obtain ⟨hroot, -, hp⟩ := h
    rename_i t _ root _
    rw [(segments_of_ofSegments? hp).2]
    rintro name rfl
    have htoken := hts t List.mem_cons_self
    unfold rootOf? at hroot
    split at hroot
    · cases hroot
    · rename_i hvalue
      cases hroot
      rw [hvalue] at htoken
      exact hwords name htoken
    · cases hroot
  segments := fun name hname => hwords _ (isPath_named h hts name hname)

theorem isTerm_quotable (hwords : ∀ name, IsWord name → P name) {levels : Nat} {ts : Tokens}
    {t : Term} (h : IsTerm levels ts t) (hts : LexicalTokens ts) : t.Quotable P := by
  induction h with
  | path h => exact isPath_quotable hwords h hts
  | @call _ t u v ts us name _ _ ht opening hargument hintegers closing ih =>
    have hname := hts t List.mem_cons_self
    rw [ht] at hname
    exact ⟨hwords name hname, ih hts.tail.tail.left⟩

namespace Path

variable {p : Path}

theorem checkRoot_quotes (hs : s.Quotable P) (hp : p.Quotable P) :
    FailsWith (Rejection.QuotesOnly P) (p.checkRoot s) := by
  unfold checkRoot
  split
  · exact .ok ()
  · rename_i hroot
    exact Catalog.checkRoot_quotes hs (hp.root _ hroot)

theorem navigate_quotes (hP : c.Admits P) (hs : s.Quotable P)
    (hp : p.Quotable P) : FailsWith (Rejection.QuotesOnly P) (p.navigate c s) :=
  (checkRoot_quotes hs hp).bind fun _ _ =>
    Catalog.navigateAll_quotes hP hs (List.forall_mem_map.2 hp.segments)

theorem navigate_quotable (hP : c.Admits P) (hs : s.Quotable P)
    (h : p.navigate c s = .ok target) : target.Quotable P := by
  obtain ⟨-, -, h⟩ := bind_eq_ok.1 h
  exact Catalog.navigateAll_quotable hP hs h

theorem resolve_quotes (hP : c.Admits P) (hs : s.Quotable P)
    (hp : p.Quotable P) : FailsWith (Rejection.QuotesOnly P) (p.resolve c s) := by
  have hhops : ∀ name ∈ p.hops.map (·.value), P name :=
    List.forall_mem_map.2 fun name hname => hp.segments name (List.mem_append_left _ hname)
  apply (checkRoot_quotes hs hp).bind
  intro _ _
  apply (Catalog.navigateAll_quotes hP hs hhops).bind
  intro target htarget
  refine Catalog.attributeRef_quotes hP (Catalog.navigateAll_quotable hP hs htarget) ?_
  exact hp.segments p.last (List.mem_append_right _ (List.mem_singleton_self _))

end Path

theorem functionOfCall_quotes {name : String} (h : P name) (integers : List (Number.Word 64)) :
    FailsWith (Rejection.QuotesOnly P) (functionOfCall name integers) := by
  unfold functionOfCall
  dsimp only
  split
  · split
    · split
      · exact .ok _
      · exact .error nofun
    · exact .error nofun
    all_goals first
      | exact .ok _
      | exact .error nofun
  · exact .error (List.forall_mem_singleton.2 h)

namespace Term

/-- The attribute in a term has a name that the schema has. -/
theorem name_mem_names {t : Term} {a : AttributeRef} (h : t.resolve c s = .ok a) :
    a.name ∈ c.schema.names := by
  induction t generalizing a with
  | path p =>
    obtain ⟨-, -, h⟩ := bind_eq_ok.1 h
    obtain ⟨target, -, h⟩ := bind_eq_ok.1 h
    obtain ⟨found, hfound, rfl⟩ := Catalog.attributeRef_iff.1 h
    obtain ⟨e, he, hmem, -⟩ := Catalog.exists_mem_of_attribute? hfound
    exact Schema.attribute_mem_names he hmem
  | call extent name argument integers ih =>
    obtain ⟨source, hsource, h⟩ := bind_eq_ok.1 h
    obtain ⟨function, -, h⟩ := bind_eq_ok.1 h
    rw [AttributeRef.name_of_apply h]
    exact ih hsource

theorem resolve_quotes (hP : c.Admits P) (hs : s.Quotable P) {t : Term}
    (ht : t.Quotable P) : FailsWith (Rejection.QuotesOnly P) (t.resolve c s) := by
  induction t with
  | path p => exact Path.resolve_quotes hP hs ht
  | call extent name argument integers ih =>
    obtain ⟨hname, hargument⟩ := ht
    apply (ih hargument).bind
    intro source hsource
    exact (functionOfCall_quotes hname _).bind fun function _ =>
      AttributeRef.apply_quotes (hP.names _ (name_mem_names hsource))

theorem compare_quotes (hP : c.Admits P)
    (hs : s.Quotable P) {operand : Term} (hoperand : operand.Quotable P) {comparator : Comparator}
    {argument : Argument} (h : ∀ q ∈ argument.quotes, P q) :
    FailsWith (Rejection.QuotesOnly P) (operand.compare c limits s comparator argument) :=
  (operand.resolve_quotes hP hs hoperand).bind fun _ _ =>
    AttributeRef.compare_quotes (hP.plain _ comparator.oneLine_name) h

end Term

theorem Leaf.IsWritten.compile_quotes (hP : c.Admits P) (hs : s.Quotable P) {ts : Tokens}
    {leaf : Leaf} (h : leaf.IsWritten ts) (hts : LexicalTokens ts) :
    FailsWith (Rejection.QuotesOnly P) (leaf.compile c limits s) := by
  have hwords : ∀ name, IsWord name → P name := fun name hname => hP.plain name hname.unbroken
  cases h with
  | unary hoperand h =>
    exact Term.compare_quotes hP hs (isTerm_quotable hwords hoperand hts.left) nofun
  | binary hoperand hcomparator hparameter =>
    exact Term.compare_quotes hP hs (isTerm_quotable hwords hoperand hts.left) nofun
  | existence h =>
    exact (Path.navigate_quotes hP hs (isPath_quotable hwords h hts)).bind fun _ _ => .ok _

theorem PlacedLeaf.scope_quotable (hP : c.Admits P) (hs : s.Quotable P)
    {l : PlacedLeaf} {inner : Scope} (h : l.scope c s = .ok inner) : inner.Quotable P := by
  obtain ⟨filters, leaf⟩ := l
  unfold scope at h
  induction filters generalizing s with
  | nil =>
    cases h
    exact hs
  | cons navigation filters ih =>
    dsimp only at h ih
    rw [List.foldlM_cons, bind_eq_ok] at h
    obtain ⟨next, hnext, h⟩ := h
    obtain ⟨target, htarget, rfl⟩ := map_eq_ok.1 hnext
    exact ih (Path.navigate_quotable hP hs htarget).rebase h

theorem toPredicate_quotes (hP : c.Admits P)
    (hs : s.Quotable P) {maxDepth : Nat} {source : String} {e : Expression}
    (h : Expression.parse maxDepth source = .ok e) :
    FailsWith (fun fault => fault.rejection.QuotesOnly P) (e.toPredicate c limits s) := by
  intro fault hfault
  obtain ⟨front, l, back, hleaves, -, hl⟩ := e.toPredicate_firstFault hfault
  obtain ⟨inner, hinner, hrejected⟩ := hl.rejected
  obtain ⟨_, _, _, hwritten⟩ := exists_written h (l := l) (by simp [hleaves])
  obtain ⟨_, run, _, hts, hrun, -⟩ := hwritten.run
  -- The names in the leaf are words, because its tokens are among those of the text.
  have hlexical : LexicalTokens run := (LexicalTokens.left (tokensAt_lexical hts)).right
  exact hrun.compile_quotes hP (l.scope_quotable hP hs hinner) hlexical _ hrejected

/-! ## Texts that do not parse -/

/-- The error quotes a string with a line break in it, or a line break as an escape. -/
def ParseError.QuotesBreak : ParseError → Prop
  | unexpectedToken (.string s) _ _ => ¬OneLine s
  | invalidEscape c _ => isBreak c = true
  | _ => False

/-- All that the error quotes is on one line, unless it is one of those that quote a line break. -/
def ParseError.KnownBreaks (e : ParseError) : Prop := (∀ q ∈ e.quotes, OneLine q) ↔ ¬e.QuotesBreak

theorem Malformed.knownBreaks {rest : List Char} {e : ParseError} (h : Malformed rest e) :
    e.KnownBreaks := by
  cases h with
  | character h =>
    refine iff_of_true (List.forall_mem_singleton.2 ?_) not_false
    exact oneLine_singleton.2 (isBreak_of_not_isBlank h)
  | integer h =>
    refine iff_of_true (List.forall_mem_singleton.2 ?_) not_false
    exact oneLine_ofList.2 (Number.Numeral.unbroken_of_span? h)
  | float h =>
    refine iff_of_true (List.forall_mem_singleton.2 ?_) not_false
    exact oneLine_ofList.2 (Number.Numeral.unbroken_of_span? h)
  | escape h =>
    refine List.forall_mem_singleton.trans (oneLine_singleton.trans ?_)
    exact (Bool.not_eq_true _).symm.to_iff
  | unclosed h => exact iff_of_true nofun not_false

theorem ErrorAmong.knownBreaks {length : Nat} {ts : Tokens} (hts : LexicalTokens ts)
    {e : ParseError}
    (h : ErrorAmong length ts e) : e.KnownBreaks := by
  cases h with
  | @token t ht found hfound expected =>
    -- An identifier is a word of the text, or the method that a path ends with.
    have hname : ∀ name, found = .identifier name → OneLine name := by
      rintro name rfl
      rcases hfound with htoken | ⟨test, htoken⟩
      · have hlexical := hts t ht
        rw [← htoken] at hlexical
        exact hlexical.unbroken
      · cases htoken
        exact test.oneLine_method
    cases found with
    | string s => exact List.forall_mem_singleton.trans not_not.symm
    | identifier name =>
      exact iff_of_true (List.forall_mem_singleton.2 (hname name rfl)) not_false
    | _ => exact iff_of_true nofun not_false
  | _ => exact iff_of_true nofun not_false

theorem knownBreaks_of_parse {maxDepth : Nat} {source : String} {e : ParseError}
    (h : Expression.parse maxDepth source = .error e) : e.KnownBreaks := by
  rcases bind_eq_error.1 h with h | ⟨ts, hts, h⟩
  · obtain ⟨_, _, -, -, hrest⟩ := malformed_of_tokensAt h
    exact hrest.knownBreaks
  · exact (ofTokens_locates _ h).knownBreaks (tokensAt_lexical hts)

end Language

/-- The cause is a text that does not parse, and quotes a line break from it. -/
def Cause.QuotesBreak : Cause → Prop
  | rejected _ => False
  | unparsable e => e.QuotesBreak

theorem CompileError.quotes_source (cause : Cause) (excerpt : Excerpt) :
    quotes ⟨cause, .source excerpt⟩ = cause.quotes :=
  List.append_nil _

namespace Language

theorem rejected_quotes {r : Rejection} (h : r.QuotesOnly P) (source : List Char)
    (extent : Extent) : (r.inSource source extent).QuotesOnly P := by
  rw [CompileError.QuotesOnly, Rejection.inSource, CompileError.quotes_source]
  exact h

/-- An error of a text quotes a line break from it, or else texts of a sort to which the root type,
the names of the schema and all texts on one line belong. -/
theorem compile_quotes (hP : c.Admits P) {rootType source : String} (hroot : P rootType)
    {error : CompileError} (h : compile c limits rootType source = .error error) :
    (error.cause.QuotesBreak → ¬∀ q ∈ error.quotes, OneLine q) ∧
      (¬error.cause.QuotesBreak → error.QuotesOnly P) := by
  unfold compile at h
  dsimp only at h
  split at h
  · rename_i e he
    cases h
    have hknown := knownBreaks_of_parse he
    rw [CompileError.QuotesOnly, ParseError.inSource, CompileError.quotes_source]
    exact ⟨fun hbreak hall => hknown.1 hall hbreak,
      fun hbreak q hq => hP.plain q (hknown.2 hbreak q hq)⟩
  · rename_i expression hparse
    split at h
    · rename_i r hr
      cases h
      exact ⟨False.elim, fun _ => rejected_quotes (Catalog.root_quotes hroot r hr) _ _⟩
    · rename_i scope hscope
      split at h
      · rename_i fault hfault
        cases h
        have hs := Catalog.root_quotable hP hscope
        have hfaulty := toPredicate_quotes hP hs hparse fault hfault
        exact ⟨False.elim, fun _ => rejected_quotes hfaulty _ _⟩
      · cases h

end Language

end Criteria
