import Criteria.Proofs.Language.Compiling
import Criteria.Proofs.Language.Writing
import Criteria.Proofs.Operand

/-! # Written references, operators and values

The texts of references, operators and parameters are those of terms, operators and literals that
stand for what was written.
-/

set_option autoImplicit false

namespace Criteria.Language

open Number Text Calendar Grammar Criteria.Language.Derivation

/-! ## Names and paths -/

/-- The characters of names behind a root. -/
def namesChars (names : List String) : List Char := names.flatMap fun name => '.' :: name.toList

/-- The tokens of names behind a root. -/
def namesTokens (names : List String) : List Token :=
  names.flatMap fun name => [.symbol .dot, .ofWord name]

theorem ends_namesChars (names : List String) {rest : List Char} (h : Ends endsWord rest) :
    Ends endsWord (namesChars names ++ rest) := by
  cases names with
  | nil => exact h
  | cons name names => exact Ends.cons (by decide) _

theorem written_names {names : List String} (h : ∀ name ∈ names, IsWord name) :
    Written endsWord (namesChars names) (namesTokens names) := by
  induction names with
  | nil => exact Written.nil
  | cons name names ih =>
    have hname : Written endsWord ('.' :: name.toList) [.symbol .dot, .ofWord name] :=
      written_dot.append (written_word (h name List.mem_cons_self)) fun rest _ => ends_any _
    exact hname.append (ih fun n hn => h n (List.mem_cons_of_mem _ hn))
      fun rest hrest => ends_namesChars names hrest

theorem exists_areNames {names : List String} {located : Tokens}
    (h : located.map (·.value) = namesTokens names) :
    ∃ found, AreNames located found ∧ found.map (·.value) = names := by
  induction names generalizing located with
  | nil =>
    obtain rfl := List.map_eq_nil_iff.1 h
    exact ⟨[], .nil, rfl⟩
  | cons name names ih =>
    obtain ⟨t, rest, rfl, ht, h⟩ := List.map_eq_cons_iff.1 h
    obtain ⟨u, rest, rfl, hu, h⟩ := List.map_eq_cons_iff.1 h
    obtain ⟨found, hfound, hvalues⟩ := ih h
    exact ⟨⟨name, u.extent⟩ :: found, .cons ht (hu ▸ Token.name?_ofWord name) hfound,
      by simp [hvalues]⟩

theorem written_this : Written endsWord "this".toList [.keyword .thisWord] :=
  written_word (Keyword.isWord_text .thisWord)

/-- A path that starts at the current entity. -/
theorem renders_path {names : List String} (hne : names ≠ []) (h : ∀ name ∈ names, IsWord name) :
    Renders endsWord (".".intercalate ("this" :: names)).toList IsPath fun p =>
      p.root.value = .this ∧ p.segments.map (·.value) = names := by
  refine ⟨.keyword .thisWord :: namesTokens names, ?_, ?_⟩
  · rw [toList_intercalate_cons]
    exact written_this.append (written_names h) fun rest hrest => ends_namesChars names hrest
  · intro located hlocated
    obtain ⟨t, rest, rfl, ht, hrest⟩ := List.map_eq_cons_iff.1 hlocated
    obtain ⟨found, hfound, hvalues⟩ := exists_areNames hrest
    -- There is a name, so the segments have a last one and make up a path.
    have hnil : found ≠ [] := by
      rintro rfl
      exact hne hvalues.symm
    have hp : Path.ofSegments? ⟨.this, t.extent⟩ found
        = some ⟨⟨.this, t.extent⟩, found.dropLast, found.getLast hnil⟩ := by
      rw [Path.ofSegments?, List.getLast?_eq_some_getLast hnil]
      rfl
    refine ⟨_, .mk (by rw [ht]; rfl) hfound hp, rfl, ?_⟩
    rw [(segments_of_ofSegments? hp).1, hvalues]

/-! ## References -/

theorem written_integer (word : Word 64) {n : Int} (h : word.toInt = n) :
    Written closes (toString n).toList [.integer word] :=
  Written.of_lexes fun _ hrest => lexes_integer h (ended_of_closes hrest)

/-- The text of a path resolves to the attribute it was written for. -/
theorem Path.resolve_of_names {c : Catalog} {root : String} {a : AttributePath}
    (hroot : a.rootType = root) (ha : a.Resolves c) {p : Path} (hthis : p.root.value = .this)
    (hnames : p.segments.map (·.value) = a.navigation ++ [a.name]) :
    p.resolve c (Scope.root root) = .ok (.simple a) := by
  obtain ⟨rfl⟩ := hroot
  obtain ⟨owner, htarget, hattribute⟩ := ha
  unfold segments at hnames
  rw [List.map_append, List.map_singleton] at hnames
  obtain ⟨hhops, hlast⟩ := List.append_inj' hnames rfl
  have hlast : p.last.value = a.name := by simpa using hlast
  simp only [resolve, bind_eq_ok, Catalog.navigateAll_iff, Catalog.attributeRef_iff, hhops, hlast]
  refine ⟨(), ?_, _, ⟨owner, htarget, rfl⟩, _, hattribute, rfl⟩
  rw [checkRoot, hthis]

/-- The characters of further arguments. -/
def argumentsChars (arguments : List (Word 64)) : List Char :=
  arguments.flatMap fun n => ',' :: ' ' :: (toString n.toInt).toList

/-- The tokens of further arguments. -/
def argumentsTokens (arguments : List (Word 64)) : List Token :=
  arguments.flatMap fun n => [.symbol .comma, .integer n]

theorem toList_text_call (f : Call) (source : Operand) :
    (Operand.call f source).text.toList =
      f.name.text.toList ++
        '(' :: (source.text.toList ++ (argumentsChars f.integers ++ [')'])) := by
  cases f with
  | substring start stop =>
    simp [Operand.text, argumentsChars, Call.integers, Call.name, FunctionName.text, toString]
  | plain function h =>
    simp [Operand.text, argumentsChars, Call.integers, Call.name, toString]

theorem ends_argumentsChars (arguments : List (Word 64)) (rest : List Char) :
    Ends closes (argumentsChars arguments ++ ')' :: rest) := by
  cases arguments with
  | nil => exact Ends.cons rfl _
  | cons n arguments => exact Ends.cons rfl _

theorem written_arguments (arguments : List (Word 64)) :
    Written anyChar (argumentsChars arguments ++ [')'])
      (argumentsTokens arguments ++ [.symbol .rightParen]) := by
  induction arguments with
  | nil => exact written_rightParen
  | cons n arguments ih =>
    have hn : Written closes (' ' :: (toString n.toInt).toList) [.integer n] :=
      (written_integer n rfl).blank
    have hcomma : Written closes (',' :: ' ' :: (toString n.toInt).toList)
        [.symbol .comma, .integer n] := written_comma.append hn fun _ _ => ends_any _
    -- Behind an argument stands another comma or the closing parenthesis.
    have happend := hcomma.append ih fun rest _ => by
      rw [List.append_assoc]
      exact ends_argumentsChars arguments rest
    simpa [argumentsChars, argumentsTokens] using happend

theorem exists_areIntegers {arguments : List (Word 64)} {located : Tokens}
    (h : located.map (·.value) = argumentsTokens arguments) :
    ∃ found, AreIntegers located found ∧ found.map (·.value) = arguments := by
  induction arguments generalizing located with
  | nil =>
    obtain rfl := List.map_eq_nil_iff.1 h
    exact ⟨[], .nil, rfl⟩
  | cons n arguments ih =>
    obtain ⟨t, rest, rfl, ht, h⟩ := List.map_eq_cons_iff.1 h
    obtain ⟨u, rest, rfl, hu, h⟩ := List.map_eq_cons_iff.1 h
    obtain ⟨found, hfound, hvalues⟩ := ih h
    exact ⟨⟨n, u.extent⟩ :: found, .cons ht hu hfound, by simp [hvalues]⟩

/-- A call is read as the function that it writes. -/
theorem functionOfCall_name (f : Call) :
    functionOfCall f.name.text f.integers =
      f.function fun start stop => .substringRange start.toInt stop.toInt := by
  cases f with
  | substring start stop =>
    have hname : Operator.ofName? FunctionName.substring.text = some (.function .substring) := by
      rfl
    cases hstart : Word.ofInt? 32 start.toInt with
    | none =>
      simp only [functionOfCall, Call.name, hname, Call.integers, Call.function, hstart]
    | some first =>
      cases hstop : Word.ofInt? 32 stop.toInt <;>
        simp only [functionOfCall, Call.name, hname, Call.integers, Call.function, hstart, hstop]
  | plain function h =>
    cases function with
    | substring start stop => exact absurd rfl h
    | _ => rfl

theorem ofWord_functionName (name : FunctionName) :
    IsWord name.text ∧ Token.ofWord name.text = .identifier name.text := by
  cases name <;> exact ⟨isWord_of_toList rfl (by decide +kernel), rfl⟩

/-- The text of a path is that of a term that resolves to the attribute at its end. -/
theorem renders_simple {c : Catalog} {root : String} {path : AttributePath}
    (hroot : path.rootType = root) (hresolves : path.Resolves c)
    (hnamed : (AttributeRef.simple path).Named IsWord) (levels : Nat) :
    Renders endsWord path.text.toList (IsTerm levels) fun t =>
      t.resolve c (Scope.root root) = .ok (.simple path) := by
  have hwords : ∀ name ∈ path.navigation ++ [path.name], IsWord name := by
    intro name hname
    rcases List.mem_append.1 hname with hname | hname
    · exact hnamed.1 name hname
    · exact List.mem_singleton.1 hname ▸ hnamed.2
  refine Renders.imp (renders_path (by simp) hwords) ?_
  rintro located p hp ⟨hthis, hnames⟩
  exact ⟨.path p, .path hp, p.resolve_of_names hroot hresolves hthis hnames⟩

/-- A call with the further arguments of a function applies the function to what its first argument
resolves to. -/
theorem resolve_call {c : Catalog} {root : String} {f : Call} {source : Operand}
    {inner : String × Json} {extent extent' : Extent} {argument : Term}
    (hargument : argument.resolve c (Scope.root root) =
      source.outcome Operand.rangeRefusal (f.entry inner))
    {integers : List (Located (Word 64))} (hintegers : integers.map (·.value) = f.integers) :
    (Term.call extent ⟨f.name.text, extent'⟩ argument integers).resolve c (Scope.root root) =
      (Operand.call f source).outcome Operand.rangeRefusal inner := by
  rw [Term.resolve, hargument, hintegers, functionOfCall_name, Operand.outcome]
  rfl

/-- The text of an operand is that of a term that resolves to what the functions of the operand
yield, which may be that one of them is rejected. The criteria inside have no part in this. -/
theorem renders_operand {c : Catalog} {root : String} {o : Operand}
    (hroot : o.attributePath.rootType = root) (hresolves : o.attributePath.Resolves c)
    (hnamed : o.Named IsWord) {levels : Nat} (hlevels : o.nesting ≤ levels)
    (inner : String × Json) :
    Renders endsWord o.text.toList (IsTerm levels) fun t =>
      t.resolve c (Scope.root root) = o.outcome Operand.rangeRefusal inner := by
  induction o generalizing levels inner with
  | path p => exact renders_simple hroot hresolves hnamed levels
  | call f source ih =>
    -- The call takes one level, so one is there, and the argument has the others.
    obtain ⟨levels, rfl⟩ : ∃ n, levels = n + 1 := ⟨levels - 1, by
      simp only [Operand.nesting] at hlevels
      omega⟩
    obtain ⟨ts, hwritten, hderives⟩ :=
      ih hroot hresolves hnamed (Nat.le_of_succ_le_succ hlevels) (f.entry inner)
    obtain ⟨hword, hidentifier⟩ := ofWord_functionName f.name
    refine ⟨.identifier f.name.text :: .symbol .leftParen ::
      (ts ++ (argumentsTokens f.integers ++ [.symbol .rightParen])), ?_, ?_⟩
    · rw [toList_text_call]
      have hname := written_word hword
      rw [hidentifier] at hname
      -- Behind the first argument stands a comma or the closing parenthesis.
      have harguments := hwritten.append (written_arguments f.integers)
        fun rest _ => by
          rw [List.append_assoc]
          exact (ends_argumentsChars _ rest).mono fun _ => endsWord_of_closes
      have hopening := written_leftParen.append harguments fun _ _ => ends_any _
      have hcall := hname.append_cons hopening (by decide)
      exact hcall.mono fun _ _ => rfl
    · intro located hlocated
      obtain ⟨t, rest, rfl, ht, h⟩ := List.map_eq_cons_iff.1 hlocated
      obtain ⟨u, rest, rfl, hu, h⟩ := List.map_eq_cons_iff.1 h
      obtain ⟨inner, rest, rfl, hinner, h⟩ := List.map_eq_append_iff.1 h
      obtain ⟨others, closing, rfl, hothers, h⟩ := List.map_eq_append_iff.1 h
      obtain ⟨v, rest, rfl, hv, h⟩ := List.map_eq_cons_iff.1 h
      obtain rfl := List.map_eq_nil_iff.1 h
      obtain ⟨argument, hargument, hargumentResolves⟩ := hderives inner hinner
      obtain ⟨integers, hintegers, hvalues⟩ := exists_areIntegers hothers
      exact ⟨_, .call ht hu hargument hintegers hv, resolve_call hargumentResolves hvalues⟩

/-- The text of a well-typed reference is that of a term that resolves to the reference. -/
theorem renders_reference {c : Catalog} {root : String} {a : AttributeRef}
    (ha : a.WellTyped c root) (hnamed : a.Named IsWord) {levels : Nat}
    (hlevels : a.nesting ≤ levels) :
    Renders endsWord a.text.toList (IsTerm levels) fun t =>
      t.resolve c (Scope.root root) = .ok a := by
  obtain ⟨hroot, hresolves⟩ := ha.resolves
  have hrenders := @renders_operand c root a.operand
  rw [Operand.Named, a.attributePath_operand, a.nesting_operand, a.text_operand] at hrenders
  have hoperand := hrenders hroot hresolves hnamed hlevels ("", .null)
  rwa [ha.outcome_operand] at hoperand

/-! ## Operators -/

theorem renders_wordOperator {word : String} (hword : IsWord word) {c : Comparator}
    (h : comparatorOf? (.ofWord word) = some c) :
    Renders isSpace word.toList IsComparator (· = c) :=
  renders_token ((written_word hword).mono fun _ => endsWord_of_isSpace) fun u hu =>
    ⟨c, .plain (by rw [hu, h]), rfl⟩

theorem renders_negatedOperator {word : String} (hword : IsWord word) {c : Comparator}
    (h : negatedOf? (.ofWord word) = some c) :
    Renders isSpace ("not".toList ++ ' ' :: word.toList) IsComparator (· = c) := by
  have hnot : Written endsWord "not".toList [.keyword .notWord] :=
    written_word (Keyword.isWord_text .notWord)
  have hwritten := hnot.append_cons (written_word hword).blank (by decide)
  refine ⟨_, hwritten.mono fun _ => endsWord_of_isSpace, ?_⟩
  intro located hlocated
  obtain ⟨t, rest, rfl, ht, hrest⟩ := List.map_eq_cons_iff.1 hlocated
  obtain ⟨u, rest, rfl, hu, hrest⟩ := List.map_eq_cons_iff.1 hrest
  obtain rfl := List.map_eq_nil_iff.1 hrest
  exact ⟨c, .negated ht (by rw [hu, h]), rfl⟩

theorem renders_pairOperator {x y : Char} {s : Symbol} (hpair : Lexeme.pair? x y = some s)
    {c : Comparator} (h : comparatorOf? (.symbol s) = some c) :
    Renders isSpace [x, y] IsComparator (· = c) :=
  renders_token (Written.of_lexes fun _ _ => lexes_pair hpair _) fun u hu =>
    ⟨c, .plain (by rw [hu, h]), rfl⟩

theorem renders_singleOperator {x : Char} {s : Symbol} (hsingle : Lexeme.single? x = some s)
    (hpair : Lexeme.pair? x ' ' = none) {c : Comparator}
    (h : comparatorOf? (.symbol s) = some c) : Renders isSpace [x] IsComparator (· = c) := by
  refine renders_token (Written.of_lexes fun rest hrest => lexes_single hsingle fun d hd => ?_)
    fun u hu => ⟨c, .plain (by rw [hu, h]), rfl⟩
  obtain rfl := of_decide_eq_true (hrest d hd)
  exact hpair

/-- The symbol of an operator that takes a parameter is read as that operator. -/
theorem renders_comparator {c : Comparator} (h : c.cardinality?.isSome = true) :
    Renders isSpace c.symbol.toList IsComparator (· = c) := by
  have hstarts : IsWord "startsWith" := isWord_of_toList rfl (by decide +kernel)
  have hends : IsWord "endsWith" := isWord_of_toList rfl (by decide +kernel)
  have hcontains : IsWord "contains" := isWord_of_toList rfl (by decide +kernel)
  have hequals : IsWord "wildCardEquals" := isWord_of_toList rfl (by decide +kernel)
  have hin : IsWord "wildCardIn" := isWord_of_toList rfl (by decide +kernel)
  cases c with
  | eq => exact renders_pairOperator rfl rfl
  | notEq => exact renders_pairOperator rfl rfl
  | isIn => exact renders_wordOperator (Keyword.isWord_text .inWord) rfl
  | notIn => exact renders_negatedOperator (Keyword.isWord_text .inWord) rfl
  | greaterThan => exact renders_singleOperator rfl rfl rfl
  | greaterThanEquals => exact renders_pairOperator rfl rfl
  | lessThan => exact renders_singleOperator rfl rfl rfl
  | lessThanEquals => exact renders_pairOperator rfl rfl
  | startsWith => exact renders_wordOperator hstarts rfl
  | notStartsWith => exact renders_negatedOperator hstarts rfl
  | endsWith => exact renders_wordOperator hends rfl
  | notEndsWith => exact renders_negatedOperator hends rfl
  | contains => exact renders_wordOperator hcontains rfl
  | notContains => exact renders_negatedOperator hcontains rfl
  | wildCardEquals => exact renders_wordOperator hequals rfl
  | wildCardNotEquals => exact renders_negatedOperator hequals rfl
  | wildCardIn => exact renders_wordOperator hin rfl
  | isNull => cases h
  | isNotNull => cases h
  | equalsEdgePoint => cases h

/-- The symbol of an operator that takes no parameter is read as that operator. -/
theorem renders_unary {c : Comparator} (h : c.cardinality? = none) :
    Renders endsWord c.symbol.toList IsUnary fun found => found.1 = c := by
  have his : Written endsWord "is".toList [.keyword .isWord] :=
    written_word (Keyword.isWord_text .isWord)
  have hnot : Written endsWord "not".toList [.keyword .notWord] :=
    written_word (Keyword.isWord_text .notWord)
  have hnull : Written endsWord "null".toList [.keyword .nullWord] :=
    written_word (Keyword.isWord_text .nullWord)
  cases c with
  | isNull =>
    refine ⟨_, his.append_cons hnull.blank (by decide), ?_⟩
    intro located hlocated
    obtain ⟨t, rest, rfl, ht, hrest⟩ := List.map_eq_cons_iff.1 hlocated
    obtain ⟨u, rest, rfl, hu, hrest⟩ := List.map_eq_cons_iff.1 hrest
    obtain rfl := List.map_eq_nil_iff.1 hrest
    exact ⟨_, .isNull ht hu, rfl⟩
  | isNotNull =>
    refine ⟨_, his.append_cons (hnot.append_cons hnull.blank (by decide)).blank (by decide), ?_⟩
    intro located hlocated
    obtain ⟨t, rest, rfl, ht, hrest⟩ := List.map_eq_cons_iff.1 hlocated
    obtain ⟨u, rest, rfl, hu, hrest⟩ := List.map_eq_cons_iff.1 hrest
    obtain ⟨v, rest, rfl, hv, hrest⟩ := List.map_eq_cons_iff.1 hrest
    obtain rfl := List.map_eq_nil_iff.1 hrest
    exact ⟨_, .isNotNull ht hu hv, rfl⟩
  | equalsEdgePoint =>
    have hword : IsWord "equalsEdgePoint" := isWord_of_toList rfl (by decide +kernel)
    exact renders_token (written_word hword) fun u hu => ⟨_, .equalsEdgePoint hu, rfl⟩
  | _ => cases h

/-! ## Values -/

/-- A text of characters that stand for themselves between quotes. -/
def IsPlain (cs : List Char) : Prop := ∀ c ∈ cs, escaped c = [c]

theorem quoted_of_plain {s : String} (h : IsPlain s.toList) : quoted s = "\"" ++ s ++ "\"" := by
  have hflat : s.toList.flatMap escaped = s.toList := by
    rw [List.flatMap_congr h, List.flatMap_singleton']
  rw [← String.toList_inj]
  simp [quoted, hflat]

theorem IsPlain.append {cs ds : List Char} (hcs : IsPlain cs) (hds : IsPlain ds) :
    IsPlain (cs ++ ds) :=
  List.forall_mem_append.2 ⟨hcs, hds⟩

theorem IsPlain.cons {c : Char} {cs : List Char} (hc : escaped c = [c]) (hcs : IsPlain cs) :
    IsPlain (c :: cs) :=
  List.forall_mem_cons.2 ⟨hc, hcs⟩

theorem isPlain_nil : IsPlain [] := fun _ h => nomatch h

theorem isPlain_padded (width n : Nat) : IsPlain (padded width n) := by
  intro c hc
  have hdigit := isDigit_of_mem_padded hc
  apply escaped_eq_self <;>
    · rintro rfl
      exact absurd hdigit (by decide)

theorem isPlain_yearText (year : Int) : IsPlain (yearText year) := by
  unfold yearText
  split
  · exact isPlain_padded _ _
  · split
    · exact IsPlain.cons rfl (isPlain_padded _ _)
    · exact IsPlain.cons rfl (isPlain_padded _ _)

theorem isPlain_date (d : Date) : IsPlain d.text.toList := by
  rw [Date.text, String.toList_ofList, Date.chars]
  exact (((isPlain_yearText _).append (.cons rfl (isPlain_padded _ _)))).append
    (.cons rfl (isPlain_padded _ _))

theorem isPlain_fractionChars (nanos : Nat) : IsPlain (Instant.fractionChars nanos) := by
  unfold Instant.fractionChars
  split
  · exact isPlain_nil
  split
  · exact IsPlain.cons rfl (isPlain_padded _ _)
  split
  · exact IsPlain.cons rfl (isPlain_padded _ _)
  · exact IsPlain.cons rfl (isPlain_padded _ _)

theorem isPlain_instant (t : Instant) : IsPlain t.text.toList := by
  rw [Instant.text, String.toList_ofList, Instant.chars]
  dsimp only
  refine .append (.append (.append (.append (.append (.append (.append ?_ ?_) ?_) ?_) ?_) ?_) ?_)
    (.cons rfl isPlain_nil)
  · exact isPlain_yearText _
  · exact IsPlain.cons rfl (isPlain_padded _ _)
  · exact IsPlain.cons rfl (isPlain_padded _ _)
  · exact IsPlain.cons rfl (isPlain_padded _ _)
  · exact IsPlain.cons rfl (isPlain_padded _ _)
  · exact IsPlain.cons rfl (isPlain_padded _ _)
  · exact isPlain_fractionChars _

theorem renders_literal {sort : Char → Bool} {text : List Char} {token : Token} {l : Literal}
    {t : ValueType} {v : Value} (hwritten : Written sort text [token])
    (hl : literalOf? token = some l) (h : StandsFor t v l) :
    Renders sort text IsLiteral fun found => StandsFor t v found.value :=
  renders_token hwritten fun u hu => ⟨⟨l, u.extent⟩, .mk (by rw [hu, hl]), h⟩

theorem written_quoted (s : String) : Written anyChar (quoted s).toList [.string s] :=
  Written.of_lexes fun rest _ => lexes_quoted s rest

/-- Text that stands for itself between quotes is read as it stands. -/
theorem renders_plain {s : String} (hs : IsPlain s.toList) {t : ValueType} {v : Value}
    (h : StandsFor t v (.string s)) :
    Renders closes ("\"" ++ s ++ "\"").toList IsLiteral fun l => StandsFor t v l.value := by
  have hwritten := written_quoted s
  rw [quoted_of_plain hs] at hwritten
  exact renders_literal (hwritten.mono fun _ _ => rfl) rfl h

theorem renders_boolean (b : Bool) :
    Renders closes (Value.boolean b).text.toList IsLiteral fun l =>
      StandsFor .boolean (.boolean b) l.value := by
  cases b with
  | true =>
    have hword : Written endsWord "true".toList [.keyword .trueWord] :=
      written_word (Keyword.isWord_text .trueWord)
    exact renders_literal (hword.mono fun _ => endsWord_of_closes) rfl ⟨rfl, nofun, rfl⟩
  | false =>
    have hword : Written endsWord "false".toList [.keyword .falseWord] :=
      written_word (Keyword.isWord_text .falseWord)
    exact renders_literal (hword.mono fun _ => endsWord_of_closes) rfl ⟨rfl, nofun, rfl⟩

/-- The text of a value is that of a literal which is read as the value again. -/
theorem renders_value {t : ValueType} {v : Value} (hv : v.HasType t) (hprintable : v.Printable) :
    Renders closes v.text.toList IsLiteral fun l => StandsFor t v l.value := by
  -- One case for each type and the values of it, and one for values of another type.
  unfold Value.HasType at hv
  split at hv
  · rename_i s
    exact renders_literal ((written_quoted s).mono fun _ _ => rfl) rfl ⟨rfl, nofun, rfl⟩
  · rename_i b
    exact renders_boolean b
  · rename_i n
    refine renders_literal (written_integer n.widen rfl) rfl ⟨?_, nofun, rfl⟩
    simp only [Value.ofLiteral?, Word.ofInt?_widen, Option.map_some]
  · rename_i n
    exact renders_literal (written_integer n rfl) rfl ⟨rfl, nofun, rfl⟩
  · exact hprintable.elim
  · rename_i x
    have hwritten : Written closes (Value.withDecimals x.plain).toList [.float x] :=
      Written.of_lexes fun _ hrest => lexes_double hv (ended_of_closes hrest)
    exact renders_literal hwritten rfl ⟨rfl, nofun, rfl⟩
  · rename_i d
    refine renders_plain (isPlain_date d) ⟨?_, nofun, rfl⟩
    simp only [Value.ofLiteral?, Date.read?_text, Option.map_some]
  · rename_i i
    refine renders_plain (isPlain_instant i) ⟨?_, nofun, rfl⟩
    simp only [Value.ofLiteral?, Instant.read?_text hv hprintable, Option.map_some]
  · rename_i i
    refine renders_plain (isPlain_instant i) ⟨?_, nofun, rfl⟩
    simp only [Value.ofLiteral?, Instant.read?_text hv hprintable, Option.map_some]
  · exact hv.elim

/-! ## Parameters -/

/-- The text of a parameter is that of a literal, or of a list of literals, for its values. -/
theorem renders_parameter {limits : Limits} {t : ValueType} {cardinality : Cardinality}
    {parameter : Parameter} (hfits : parameter.Fits limits t (some cardinality))
    (hprintable : ∀ v ∈ parameter.values, v.Printable) :
    Renders closes parameter.text.toList IsParameter fun l =>
      StandsForAll t parameter l.value := by
  cases parameter with
  | none => cases cardinality <;> exact hfits.elim
  | one v =>
    cases cardinality with
    | many => exact hfits.elim
    | one =>
      obtain ⟨ts, hwritten, hderives⟩ :=
        renders_value hfits (hprintable v (by simp [Parameter.values]))
      refine ⟨ts, hwritten, ?_⟩
      intro located hlocated
      obtain ⟨l, hl, hv⟩ := hderives located hlocated
      exact ⟨l, .literal hl, hv⟩
  | many vs =>
    cases cardinality with
    | one => exact hfits.elim
    | many =>
      -- A list has a value, which is the first item of a chain between parentheses.
      obtain ⟨hne, -, -, htypes⟩ := hfits
      obtain ⟨first, others, rfl⟩ := List.exists_cons_of_ne_nil hne
      have hitems := renders_chain separates_comma
        (P := fun v (l : Located Literal) => StandsFor t v l.value) fun v hv =>
          renders_value (htypes v hv) (hprintable v hv)
      have htext : (Parameter.many (first :: others)).text.toList = _ :=
        toList_parenthesized Value.text first others
      rw [htext]
      refine (hitems.inParentheses.mono fun _ _ => rfl).imp ?_
      rintro _ ⟨l, ls⟩ ⟨opening, us, closing, rfl, hopening, hchain, hclosing⟩ hvalues
      refine ⟨_, .list hopening hchain hclosing, _, rfl, ?_⟩
      rw [List.forall₂_map_right_iff]
      exact hvalues

end Criteria.Language
