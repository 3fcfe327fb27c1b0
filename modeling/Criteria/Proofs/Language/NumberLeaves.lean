import Criteria.Proofs.Language.Conditions
import Criteria.Proofs.Language.Spacing

/-! # Comparisons with a numeral

A text whose last lexeme is a numeral has the tokens of what stands in front of it and that of the
numeral, if the numeral has one (`Tokenized.tokenize_numeral`). So an attribute compared with a
numeral compiles to the comparison with the literal that the numeral is in texts, and to nothing if
it is none (`compile_numeral`).
-/

set_option autoImplicit false

namespace Criteria.Language

open Number Text Grammar Criteria.Language.Derivation

/-! ## Numerals at the end of a text -/

/-- A numeral on its own is the token that it has, if it has one. -/
theorem tokensAt_numeral {n : Numeral} {text : List Char}
    (h : Numeral.span? text = some (n, text, [])) (position : Nat) :
    tokensAt position text = (Lexeme.numeralToken n text position).map fun t =>
      [⟨t, ⟨position, position + utf8Length text⟩⟩] := by
  obtain ⟨c, r, rfl, hc⟩ := Numeral.exists_first h
  have hscan : Lexeme.scan? position (c :: r) =
      (Lexeme.numeralToken n (c :: r) position).map fun t =>
        some ⟨t, c :: r, [], List.append_nil _, List.cons_ne_nil _ _⟩ := by
    rw [Lexeme.scan?]
    split
    · rename_i hspan
      cases h.symm.trans hspan
      cases Lexeme.numeralToken n (c :: r) position <;> rfl
    · rename_i hspan
      cases h.symm.trans hspan
  rw [tokensAt, if_neg (by simp [Numeral.isBlank_first hc]), hscan]
  cases Lexeme.numeralToken n (c :: r) position with
  | error e => rfl
  | ok t =>
    dsimp only [Except.map]
    rw [tokensAt]
    rfl

/-- The literal that a numeral is in a text, if it is one. -/
def literalOfNumeral? (n : Numeral) : Option Literal :=
  (Lexeme.numeralToken n [] 0).toOption.bind literalOf?

/-- A numeral has a token exactly if it is a literal in texts, and the token is read as it. -/
theorem exists_numeralToken_iff {n : Numeral} {text : List Char} {position : Nat} {l : Literal} :
    (∃ t, Lexeme.numeralToken n text position = .ok t ∧ literalOf? t = some l) ↔
      literalOfNumeral? n = some l := by
  have hsame (t : Token) : Lexeme.numeralToken n text position = .ok t ↔
      Lexeme.numeralToken n [] 0 = .ok t := by
    rw [Lexeme.numeralToken_eq_ok, Lexeme.numeralToken_eq_ok]
  unfold literalOfNumeral?
  cases htoken : Lexeme.numeralToken n [] 0 with
  | error e => simp [hsame, htoken, Except.toOption]
  | ok t => simp [hsame, htoken, Except.toOption]

theorem numeralToken_of_literalOfNumeral?_eq_none {n : Numeral} {text : List Char} {position : Nat}
    (h : literalOfNumeral? n = none) : ∃ e, Lexeme.numeralToken n text position = .error e := by
  rw [exists_error_iff]
  intro t ht
  obtain ⟨l, hl⟩ : ∃ l, literalOf? t = some l := by
    rcases Lexeme.numeralToken_eq_ok.1 ht with ⟨-, word, -, rfl⟩ | ⟨-, -, rfl⟩
    · exact ⟨_, rfl⟩
    · exact ⟨_, rfl⟩
  cases h.symm.trans (exists_numeralToken_iff.1 ⟨t, ht, hl⟩)

/-- Behind a blank, a numeral is the last token of a text, and without a token for it the text has
none at all. -/
theorem Tokenized.tokenize_numeral {front : List Char} {ts : List Token} (h : Tokenized front ts)
    {source : String} {n : Numeral} {number : List Char}
    (hsource : source.toList = front ++ ' ' :: number)
    (hnumber : Numeral.span? number = some (n, number, [])) :
    (∀ l, literalOfNumeral? n = some l → ∃ located t, tokenize source = .ok (located ++ [t]) ∧
      words located = ts ∧ literalOf? t.value = some l) ∧
    (literalOfNumeral? n = none → ∃ e, tokenize source = .error e) := by
  obtain ⟨located, hlocated, hvalues⟩ := h.tokensAt 0
  have hgap : IsGap [' '] := ⟨List.cons_ne_nil _ _, List.forall_mem_singleton.2 rfl⟩
  have hfollowed := (tokensAt_iff.1 hlocated).tokensAt_followed hgap number
  rw [tokensAt_numeral hnumber] at hfollowed
  rw [tokenize, hsource, List.append_cons, List.append_assoc, hfollowed]
  constructor
  · intro l hl
    obtain ⟨t, ht, htl⟩ := exists_numeralToken_iff.2 hl
    rw [ht]
    exact ⟨located, _, rfl, hvalues, htl⟩
  · intro hnone
    obtain ⟨e, he⟩ := numeralToken_of_literalOfNumeral?_eq_none hnone
    rw [he]
    exact ⟨e, rfl⟩

/-! ## Leaves -/

/-- An operand and an operator behind it. -/
inductive IsSubject (levels : Nat) : Production (Term × Comparator)
  | mk {us vs : Tokens} {operand : Term} {comparator : Comparator}
      (hoperand : IsTerm levels us operand) (hcomparator : IsComparator vs comparator) :
      IsSubject levels (us ++ vs) (operand, comparator)

theorem renders_subject {levels : Nat} {operand : List Char} {Q : Term → Prop}
    {comparator : Comparator} (hoperand : Renders endsWord operand (IsTerm levels) Q)
    (hcardinality : comparator.cardinality?.isSome = true) :
    Renders isSpace (operand ++ ' ' :: comparator.symbol.toList) (IsSubject levels) fun x =>
      Q x.1 ∧ x.2 = comparator :=
  hoperand.append (renders_comparator hcardinality).blank (fun _ _ => Ends.cons rfl _)
    fun _ _ _ _ ht hQ hcomparator hsame => ⟨_, .mk ht hcomparator, hQ, hsame⟩

/-- A subject and a literal are an expression. -/
theorem IsSubject.isExpression {levels : Nat} {ts : Tokens} {operand : Term}
    {comparator : Comparator} (h : IsSubject levels ts (operand, comparator)) {t : Located Token}
    {l : Literal} (hl : literalOf? t.value = some l) :
    ∃ extent, IsExpression levels (ts ++ [t])
      (.binary extent operand comparator ⟨l, t.extent⟩) := by
  cases h with
  | mk hoperand hcomparator =>
    rw [List.append_assoc]
    exact ⟨_, isExpression_of_isLeaf
      (.comparison hoperand (.binary hcomparator (.literal (.mk hl))))⟩

variable {c : Catalog} {limits : Limits} {p : AttributePath}

/-- An attribute compared with a numeral compiles to the comparison with the literal that the
numeral is in texts, and to nothing if it is none. -/
theorem compile_numeral (hresolves : p.Resolves c) (hnamed : (AttributeRef.simple p).Named IsWord)
    {comparator : Comparator} (hcardinality : comparator.cardinality?.isSome = true) {n : Numeral}
    {number : String} (hnumber : Numeral.span? number.toList = some (n, number.toList, [])) :
    (compile c limits p.rootType s!"{p.text} {comparator.symbol} {number}").toOption =
      (literalOfNumeral? n).bind fun l =>
        ((AttributeRef.simple p).compare limits comparator (.value l)).toOption := by
  have hsource : s!"{p.text} {comparator.symbol} {number}".toList =
      (p.text.toList ++ ' ' :: comparator.symbol.toList) ++ ' ' :: number.toList := by
    simp [toString]
  obtain ⟨ts, hwritten, hderives⟩ :=
    renders_subject (renders_simple rfl hresolves hnamed limits.maxDepth) hcardinality
  obtain ⟨hread, hunread⟩ := hwritten.tokenized.tokenize_numeral hsource hnumber
  rw [compile_eq, hresolves.root_eq_ok]
  cases hliteral : literalOfNumeral? n with
  | none =>
    obtain ⟨e, he⟩ := hunread hliteral
    rw [Expression.parse, he]
    rfl
  | some l =>
    obtain ⟨located, t, htokens, hlocated, hl⟩ := hread l hliteral
    obtain ⟨⟨operand, found⟩, hsubject, hoperand, rfl⟩ := hderives located hlocated
    obtain ⟨extent, hexpression⟩ := hsubject.isExpression hl
    have hparse : Expression.parse limits.maxDepth s!"{p.text} {found.symbol} {number}" = .ok _ :=
      bind_eq_ok.2 ⟨_, htokens, (ofTokens_iff _).2 hexpression⟩
    rw [hparse]
    show ((Expression.toPredicate c limits (Scope.root p.rootType) _).mapError _).toOption = _
    rw [Expression.toPredicate, hoperand, Option.bind_some]
    show ((atExtent extent ((AttributeRef.simple p).compare limits found (.value l))).mapError
      _).toOption = _
    cases (AttributeRef.simple p).compare limits found (.value l) <;> rfl

end Criteria.Language
