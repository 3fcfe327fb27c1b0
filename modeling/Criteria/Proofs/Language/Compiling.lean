import Criteria.Proofs.Language.Lexing
import Criteria.Proofs.Language.Parsing
import Criteria.Proofs.Language.Typing

/-! # Predicates of texts

An expression derived from the tokens of a text has words for names and finite numbers, so the
predicate of a text that compiles has every property that building predicates keeps
(`compile_kept`).
-/

set_option autoImplicit false

namespace Criteria.Language

open Number Grammar Criteria.Language.Derivation

/-- All tokens are such as a text can have. -/
def LexicalTokens (ts : Tokens) : Prop := ∀ t ∈ ts, t.value.Lexical

theorem LexicalTokens.left {ts us : Tokens} (h : LexicalTokens (ts ++ us)) : LexicalTokens ts :=
  fun t ht => h t (List.mem_append_left _ ht)

theorem LexicalTokens.right {ts us : Tokens} (h : LexicalTokens (ts ++ us)) : LexicalTokens us :=
  fun t ht => h t (List.mem_append_right _ ht)

theorem LexicalTokens.tail {t : Located Token} {ts : Tokens} (h : LexicalTokens (t :: ts)) :
    LexicalTokens ts :=
  fun u hu => h u (List.mem_cons_of_mem _ hu)

/-! ## Literals, paths and terms -/

theorem chain_forall {α : Type} {separator : Symbol} {R : Production α} {P : α → Prop}
    (h : ∀ ts a, R ts a → LexicalTokens ts → P a) {ts : Tokens} {a : α × List α}
    (hchain : Chain separator R ts a) (hts : LexicalTokens ts) : P a.1 ∧ ∀ x ∈ a.2, P x := by
  induction hchain with
  | one item => exact ⟨h _ _ item hts, fun x hx => nomatch hx⟩
  | more item between tail ih =>
    obtain ⟨hsecond, hothers⟩ := ih hts.right.tail
    refine ⟨h _ _ item hts.left, ?_⟩
    intro x hx
    rcases List.mem_cons.1 hx with rfl | hx
    · exact hsecond
    · exact hothers x hx

/-- A literal read from a token is no list, and its numbers are finite. -/
theorem isLiteral_finite {ts : Tokens} {l : Located Literal} (h : IsLiteral ts l)
    (hts : LexicalTokens ts) : l.value.Finite := by
  obtain ⟨h⟩ := h
  rename_i t l
  have ht := hts t List.mem_cons_self
  unfold literalOf? at h
  split at h
  -- Only a float can fail to be finite, and the tokens hold no other than finite ones.
  all_goals first | (cases h; exact trivial) | skip
  · rename_i x hvalue
    cases h
    rw [hvalue] at ht
    exact ht
  · cases h

theorem isParameter_finite {ts : Tokens} {l : Located Literal} (h : IsParameter ts l)
    (hts : LexicalTokens ts) : l.value.Finite := by
  cases h with
  | literal h => exact isLiteral_finite h hts
  | list opening items closing =>
    obtain ⟨hfirst, hothers⟩ := chain_forall (P := fun l => l.value.Finite)
      (fun _ _ => isLiteral_finite) items hts.tail.left
    intro x hx
    rw [List.map_cons, List.mem_cons] at hx
    -- The value is that of the first literal or of one of the others.
    rcases hx with hx | hx
    · rw [← hx] at hfirst
      exact hfirst
    · obtain ⟨l, hl, hx⟩ := List.mem_map.1 hx
      have hfinite := hothers l hl
      rw [hx] at hfinite
      exact hfinite

theorem areNames_isWord {ts : Tokens} {names : List (Located String)} (h : AreNames ts names)
    (hts : LexicalTokens ts) : ∀ name ∈ names, IsWord name.value := by
  induction h with
  | nil => exact fun _ h => nomatch h
  | @cons t u ts name names before hname tail ih =>
    intro n hn
    rcases List.mem_cons.1 hn with rfl | hn
    · exact (hts u (by simp)).isWord hname
    · exact ih hts.tail.tail n hn

theorem segments_of_ofSegments? {root : Located Root} {segments : List (Located String)} {p : Path}
    (h : Path.ofSegments? root segments = some p) : p.segments = segments ∧ p.root = root := by
  obtain ⟨last, hlast, rfl⟩ := Option.map_eq_some_iff.1 h
  exact ⟨List.dropLast_append_getLast? last hlast, rfl⟩

theorem isPath_named {ts : Tokens} {p : Path} (h : IsPath ts p) (hts : LexicalTokens ts) :
    p.Named IsWord := by
  obtain ⟨hroot, hnames, hp⟩ := h
  unfold Path.Named
  rw [(segments_of_ofSegments? hp).1]
  exact areNames_isWord hnames hts.tail

theorem isTerm_named {levels : Nat} {ts : Tokens} {t : Term} (h : IsTerm levels ts t)
    (hts : LexicalTokens ts) : t.Named IsWord := by
  induction h with
  | path h => exact isPath_named h hts
  | call ht opening hargument hintegers closing ih => exact ih hts.tail.tail.left

/-! ## Expressions -/

section

variable {levels : Nat} {Inner : Option (Production Expression)}

/-- What may stand inside a bracket has words for names and finite numbers. -/
def InnerLexical (Inner : Option (Production Expression)) : Prop :=
  ∀ R, Inner = some R → ∀ ts e, R ts e → LexicalTokens ts → e.Lexical IsWord

theorem isComparison_lexical {operand : Term} (hoperand : operand.Named IsWord) {ts : Tokens}
    {e : Expression} (h : IsComparison operand ts e) (hts : LexicalTokens ts) :
    e.Lexical IsWord := by
  cases h with
  | unary h => exact .unary hoperand
  | binary hcomparator hparameter =>
    exact .binary hoperand (isParameter_finite hparameter hts.right)

theorem parent?_named {p navigation : Path} (hp : p.Named IsWord)
    (h : p.parent? = some navigation) : navigation.Named IsWord := by
  unfold Path.Named
  rw [(segments_of_ofSegments? h).1]
  exact fun name hname => hp name (List.mem_append_left _ hname)

theorem isExistence_lexical (hinner : InnerLexical Inner) {p : Path} (hp : p.Named IsWord)
    {ts : Tokens} {e : Expression} (h : IsExistence Inner p ts e) (hts : LexicalTokens ts) :
    e.Lexical IsWord := by
  cases h with
  | method htest hparent opening hfilter closing =>
    refine .existence (parent?_named hp hparent) fun e he => ?_
    cases hfilter with
    | empty _ => cases he
    | filter hR hfilter =>
      cases he
      exact hinner _ hR _ _ hfilter hts.tail.left
  | present ht => exact .existence hp fun e he => nomatch he
  | absent ht hu => exact .existence hp fun e he => nomatch he
  | absentWith hR ht hu opening he' closing =>
    refine .existence hp ?_
    intro e he
    cases he
    exact hinner _ hR _ _ he' hts.tail.tail.tail.left

theorem isPrimary_lexical (hinner : InnerLexical Inner) (ts : Tokens) (e : Expression)
    (h : IsPrimary levels Inner ts e) (hts : LexicalTokens ts) : e.Lexical IsWord := by
  cases h with
  | all ht => exact .all
  | none ht => exact .none
  | group hR opening he closing => exact .group (hinner _ hR _ _ he hts.tail.left)
  | leaf h =>
    cases h with
    | comparison hoperand h =>
      exact isComparison_lexical (isTerm_named hoperand hts.left) h hts.right
    | existence hp h =>
      exact isExistence_lexical hinner (isPath_named hp hts.left) h hts.right

/-- One operand as it is or several combined. -/
theorem combine_induction {motive : Expression → Prop}
    {combination : Extent → Expression → List Expression → Expression} {first : Expression}
    {others : List Expression} (hfirst : motive first)
    (hcombination : others ≠ [] → ∀ extent, motive (combination extent first others)) :
    motive (combine combination first others) := by
  unfold combine
  split
  · exact hfirst
  · rename_i last hlast
    refine hcombination ?_ _
    rintro rfl
    cases hlast

theorem isConjunction_lexical (hinner : InnerLexical Inner) (ts : Tokens) (e : Expression)
    (h : IsConjunction levels Inner ts e) (hts : LexicalTokens ts) : e.Lexical IsWord := by
  obtain ⟨first, others, hchain, rfl⟩ := h
  obtain ⟨hfirst, hothers⟩ := chain_forall (isPrimary_lexical hinner) hchain hts
  exact combine_induction hfirst fun _ _ => .conjunction hfirst hothers

theorem isDisjunction_lexical (hinner : InnerLexical Inner) (ts : Tokens) (e : Expression)
    (h : IsDisjunction levels Inner ts e) (hts : LexicalTokens ts) : e.Lexical IsWord := by
  obtain ⟨first, others, hchain, rfl⟩ := h
  obtain ⟨hfirst, hothers⟩ := chain_forall (isConjunction_lexical hinner) hchain hts
  exact combine_induction hfirst fun _ _ => .disjunction hfirst hothers

end

theorem isExpression_lexical (levels : Nat) (ts : Tokens) (e : Expression)
    (h : IsExpression levels ts e) (hts : LexicalTokens ts) : e.Lexical IsWord := by
  -- By induction on the levels: what stands inside brackets is on one level less.
  induction levels generalizing ts e with
  | zero =>
    refine isDisjunction_lexical ?_ ts e h hts
    intro R hR
    cases hR
  | succ levels ih =>
    refine isDisjunction_lexical ?_ ts e h hts
    intro R hR
    cases hR
    exact ih

/-! ## Texts -/

/-- What a text that compiles goes through. -/
theorem compile_eq_ok {c : Catalog} {limits : Limits} {rootType source : String} {p : Predicate} :
    compile c limits rootType source = .ok p ↔
      ∃ e, Expression.parse limits.maxDepth source = .ok e ∧
        (∃ entity, c.entity? rootType = some entity) ∧
          e.toPredicate c limits (Scope.root rootType) = .ok p := by
  unfold compile
  dsimp only
  constructor
  · intro h
    split at h
    · cases h
    · rename_i e hparse
      split at h
      · cases h
      · rename_i scope hscope
        obtain ⟨hentity, rfl⟩ := Catalog.root_iff.1 hscope
        split at h
        · cases h
        · rename_i q hq
          cases h
          exact ⟨e, hparse, hentity, hq⟩
  · rintro ⟨e, hparse, hentity, hp⟩
    rw [hparse]
    dsimp only
    rw [Catalog.root_iff.2 ⟨hentity, rfl⟩]
    dsimp only
    rw [hp]

theorem parse_lexical {maxDepth : Nat} {source : String} {e : Expression}
    (h : Expression.parse maxDepth source = .ok e) : e.Lexical IsWord := by
  obtain ⟨ts, hts, h⟩ := bind_eq_ok.1 h
  exact isExpression_lexical _ ts e ((ofTokens_iff _).1 h) (tokensAt_lexical hts)

/-- The predicate of a text has every property that building predicates keeps. -/
theorem compile_kept {c : Catalog} {limits : Limits} {P : String → Predicate → Prop}
    (k : Predicate.Kept c limits IsWord P) {rootType source : String} {p : Predicate}
    (h : compile c limits rootType source = .ok p) : P rootType p := by
  obtain ⟨e, hparse, -, hp⟩ := compile_eq_ok.1 h
  exact Expression.toPredicate_kept k (parse_lexical hparse) (Scope.Reached.root rootType) hp

end Criteria.Language
