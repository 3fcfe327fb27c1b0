import Criteria.Proofs.Language.Compiling
import Criteria.Proofs.Language.Phrase

/-! # What the parser accepts

Runs of tokens that the grammar derives are the tokens of phrases, and the expression of a run is
that of the phrase (`exists_phrase`, `exists_isExpression`). So the parser accepts the tokens of
phrases that are not nested too deep and nothing else, and there is one phrase for what it returns
(`ofTokens_ok_iff_phrase`).
-/

set_option autoImplicit false

namespace Criteria.Language

open Number Grammar Criteria.Language.Derivation
open Phrase (behind)

/-- The tokens without their places. -/
def words (ts : Tokens) : List Token := ts.map (·.value)

@[simp] theorem words_nil : words [] = [] := rfl

@[simp] theorem words_cons (t : Located Token) (ts : Tokens) :
    words (t :: ts) = t.value :: words ts := rfl

@[simp] theorem words_append (ts us : Tokens) : words (ts ++ us) = words ts ++ words us :=
  List.map_append

/-! ## Literals and operators -/

theorem exists_scalar {ts : Tokens} {l : Located Literal} (h : IsLiteral ts l) :
    ∃ s : Phrase.Scalar, words ts = [s.token] ∧ s.literal = l.value := by
  obtain ⟨h⟩ := h
  rename_i t l
  obtain ⟨value, extent⟩ := t
  dsimp only at h
  unfold literalOf? at h
  split at h
  · cases h
    exact ⟨.string _, rfl, rfl⟩
  · cases h
    exact ⟨.integer _, rfl, rfl⟩
  · cases h
    exact ⟨.float _, rfl, rfl⟩
  · cases h
    exact ⟨.boolean true, rfl, rfl⟩
  · cases h
    exact ⟨.boolean false, rfl, rfl⟩
  · cases h
    exact ⟨.null, rfl, rfl⟩
  · cases h

theorem literalOf?_token (s : Phrase.Scalar) : literalOf? s.token = some s.literal := by
  cases s with
  | boolean b => cases b <;> rfl
  | _ => rfl

theorem exists_isLiteral {s : Phrase.Scalar} {ts : Tokens} (h : words ts = [s.token]) :
    ∃ l, IsLiteral ts l ∧ l.value = s.literal := by
  obtain ⟨t, rfl, ht⟩ := List.map_eq_singleton_iff.1 h
  exact ⟨_, .mk (ht ▸ literalOf?_token s), rfl⟩

theorem exists_scalars {ts : Tokens} {a : Located Literal × List (Located Literal)}
    (h : Chain .comma IsLiteral ts a) :
    ∃ (first : Phrase.Scalar) (others : List Phrase.Scalar),
      words ts = first.token :: behind .comma (others.map Phrase.Scalar.token) ∧
        first.literal = a.1.value ∧ others.map Phrase.Scalar.literal = a.2.map (·.value) := by
  induction h with
  | one item =>
    obtain ⟨s, hs, hliteral⟩ := exists_scalar item
    exact ⟨s, [], hs, hliteral, rfl⟩
  | more item between tail ih =>
    obtain ⟨s, hs, hliteral⟩ := exists_scalar item
    obtain ⟨second, others, hwords, hsecond, hothers⟩ := ih
    refine ⟨s, second :: others, ?_, hliteral, by simp [hsecond, hothers]⟩
    rw [words_append, words_cons, hs, between, hwords]
    rfl

theorem exists_chain_isLiteral {first : Phrase.Scalar} {others : List Phrase.Scalar} {ts : Tokens}
    (h : words ts = first.token :: behind .comma (others.map Phrase.Scalar.token)) :
    ∃ a, Chain .comma IsLiteral ts a ∧ a.1.value = first.literal ∧
      a.2.map (·.value) = others.map Phrase.Scalar.literal := by
  induction others generalizing first ts with
  | nil =>
    obtain ⟨l, hl, hliteral⟩ := exists_isLiteral h
    exact ⟨(l, []), .one hl, hliteral, rfl⟩
  | cons second others ih =>
    obtain ⟨t, r, rfl, ht, hr⟩ := List.map_eq_cons_iff.1 h
    obtain ⟨u, s, rfl, hu, hs⟩ := List.map_eq_cons_iff.1 hr
    have hfirst : words [t] = [first.token] := by rw [← ht]; rfl
    obtain ⟨l, hl, hliteral⟩ := exists_isLiteral hfirst
    obtain ⟨⟨l', ls⟩, hchain, hsecond, hothers⟩ := ih hs
    refine ⟨(l, l' :: ls), .more hl hu hchain, hliteral, ?_⟩
    rw [List.map_cons, hsecond, hothers, List.map_cons]

theorem exists_parameter {ts : Tokens} {l : Located Literal} (h : IsParameter ts l) :
    ∃ p : Phrase.Parameter, words ts = p.tokens ∧ p.literal = l.value := by
  cases h with
  | literal h =>
    obtain ⟨s, hs, hliteral⟩ := exists_scalar h
    exact ⟨.scalar s, hs, hliteral⟩
  | list opening items closing =>
    obtain ⟨first, others, hwords, hfirst, hothers⟩ := exists_scalars items
    refine ⟨.list first others, ?_, ?_⟩
    · simp only [words_cons, words_append, words_nil, opening, hwords, closing]
      rfl
    · simp [Phrase.Parameter.literal, hfirst, hothers]

theorem exists_isParameter {p : Phrase.Parameter} {ts : Tokens} (h : words ts = p.tokens) :
    ∃ l, IsParameter ts l ∧ l.value = p.literal := by
  cases p with
  | scalar s =>
    obtain ⟨l, hl, hliteral⟩ := exists_isLiteral h
    exact ⟨l, .literal hl, hliteral⟩
  | list first others =>
    obtain ⟨t, r, rfl, ht, hr⟩ := List.map_eq_cons_iff.1 h
    rw [← List.cons_append] at hr
    obtain ⟨us, vs, rfl, hus, hvs⟩ := List.map_eq_append_iff.1 hr
    obtain ⟨v, rfl, hv⟩ := List.map_eq_singleton_iff.1 hvs
    obtain ⟨⟨l, ls⟩, hchain, hfirst, hothers⟩ := exists_chain_isLiteral hus
    refine ⟨_, .list ht hchain hv, ?_⟩
    rw [List.map_cons, hothers]
    dsimp only at hfirst ⊢
    rw [hfirst]
    rfl

theorem mem_unaryOperators {ts : Tokens} {c : Comparator} {stop : Nat} (h : IsUnary ts (c, stop)) :
    (words ts, c) ∈ Phrase.unaryOperators := by
  cases h with
  | isNull ht hu => simp [ht, hu, Phrase.unaryOperators]
  | isNotNull ht hu hv => simp [ht, hu, hv, Phrase.unaryOperators]
  | equalsEdgePoint ht => simp [ht, Phrase.unaryOperators]

theorem exists_isUnary {o : Phrase.Spelling Phrase.unaryOperators} {ts : Tokens}
    (h : words ts = o.tokens) : ∃ stop, IsUnary ts (o.comparator, stop) := by
  obtain ⟨tokens, comparator, hmem⟩ := o
  simp only [Phrase.unaryOperators, List.mem_cons, Prod.mk.injEq, List.not_mem_nil, or_false]
    at hmem
  rcases hmem with ⟨rfl, rfl⟩ | ⟨rfl, rfl⟩ | ⟨rfl, rfl⟩
  · obtain ⟨t, r, rfl, ht, hr⟩ := List.map_eq_cons_iff.1 h
    obtain ⟨u, rfl, hu⟩ := List.map_eq_singleton_iff.1 hr
    exact ⟨_, .isNull ht hu⟩
  · obtain ⟨t, r, rfl, ht, hr⟩ := List.map_eq_cons_iff.1 h
    obtain ⟨u, s, rfl, hu, hs⟩ := List.map_eq_cons_iff.1 hr
    obtain ⟨v, rfl, hv⟩ := List.map_eq_singleton_iff.1 hs
    exact ⟨_, .isNotNull ht hu hv⟩
  · obtain ⟨t, rfl, ht⟩ := List.map_eq_singleton_iff.1 h
    exact ⟨_, .equalsEdgePoint ht⟩

theorem mem_binaryOperators {ts : Tokens} {c : Comparator} (h : IsComparator ts c) :
    (words ts, c) ∈ Phrase.binaryOperators := by
  cases h with
  | @plain t c h =>
    obtain ⟨value, extent⟩ := t
    dsimp only at h
    unfold comparatorOf? at h
    split at h <;> cases h <;> simp [Phrase.binaryOperators]
  | @negated t u c before h =>
    obtain ⟨value, extent⟩ := u
    dsimp only at h
    unfold negatedOf? at h
    split at h <;> cases h <;> simp [before, Phrase.binaryOperators]

/-- An operator is one token, or one behind `not`. -/
theorem binaryOperators_read :
    ∀ s ∈ Phrase.binaryOperators, (∃ t, s.1 = [t] ∧ comparatorOf? t = some s.2) ∨
      ∃ t, s.1 = [.keyword .notWord, t] ∧ negatedOf? t = some s.2 := by
  intro s hs
  simp only [Phrase.binaryOperators, List.mem_cons, List.not_mem_nil, or_false] at hs
  rcases hs with rfl | rfl | rfl | rfl | rfl | rfl | rfl | rfl | rfl | rfl | rfl | rfl | rfl | rfl |
    rfl | rfl | rfl | rfl
  all_goals first | exact .inl ⟨_, rfl, rfl⟩ | exact .inr ⟨_, rfl, rfl⟩

theorem exists_isComparator {o : Phrase.Spelling Phrase.binaryOperators} {ts : Tokens}
    (h : words ts = o.tokens) : IsComparator ts o.comparator := by
  rcases binaryOperators_read _ o.mem with ⟨value, hvalue, hread⟩ | ⟨value, hvalue, hread⟩
  · obtain ⟨t, rfl, rfl⟩ := List.map_eq_singleton_iff.1 (h.trans hvalue)
    exact .plain hread
  · obtain ⟨t, r, rfl, ht, hr⟩ := List.map_eq_cons_iff.1 (h.trans hvalue)
    obtain ⟨u, rfl, rfl⟩ := List.map_eq_singleton_iff.1 hr
    exact .negated ht hread

/-! ## Paths and terms -/

theorem exists_name {t : Token} {text : String} (h : t.name? = some text) :
    ∃ n : Phrase.Name, n.token = t ∧ n.text = text := by
  cases t with
  | identifier name =>
    cases h
    exact ⟨.word text, rfl, rfl⟩
  | keyword k =>
    cases h
    exact ⟨.reserved k, rfl, rfl⟩
  | _ => cases h

theorem name?_token (n : Phrase.Name) : n.token.name? = some n.text := by
  cases n <;> rfl

theorem exists_names {ts : Tokens} {names : List (Located String)} (h : AreNames ts names) :
    ∃ ns : List Phrase.Name, words ts = behind .dot (ns.map Phrase.Name.token) ∧
      names.map Located.unplaced = ns.map fun n => .nowhere n.text := by
  induction h with
  | nil => exact ⟨[], rfl, rfl⟩
  | cons before hname tail ih =>
    obtain ⟨ns, hwords, htexts⟩ := ih
    obtain ⟨n, hn, rfl⟩ := exists_name hname
    refine ⟨n :: ns, ?_, ?_⟩
    · simp [before, hn, hwords]
    · rw [List.map_cons, htexts]
      rfl

theorem exists_areNames_of_names {ns : List Phrase.Name} {ts : Tokens}
    (h : words ts = behind .dot (ns.map Phrase.Name.token)) :
    ∃ names, AreNames ts names ∧
      names.map Located.unplaced = ns.map fun n => .nowhere n.text := by
  induction ns generalizing ts with
  | nil =>
    obtain rfl := List.map_eq_nil_iff.1 h
    exact ⟨[], .nil, rfl⟩
  | cons n ns ih =>
    obtain ⟨t, r, rfl, ht, hr⟩ := List.map_eq_cons_iff.1 h
    obtain ⟨u, us, rfl, hu, hus⟩ := List.map_eq_cons_iff.1 hr
    obtain ⟨names, hnames, htexts⟩ := ih hus
    refine ⟨_, .cons ht (hu ▸ name?_token n) hnames, ?_⟩
    rw [List.map_cons, htexts]
    rfl

theorem rootOf?_eq_some {t : Token} {root : Root} :
    rootOf? t = some root ↔ t = Phrase.rootToken root := by
  constructor
  · intro h
    unfold rootOf? at h
    split at h <;> cases h <;> rfl
  · rintro rfl
    cases root <;> rfl

theorem exists_path {ts : Tokens} {p : Path} (h : IsPath ts p) :
    ∃ q : Phrase.Path, words ts = q.tokens ∧ q.path = p.unplaced := by
  obtain ⟨hroot, hnames, hp⟩ := h
  rename_i root segments
  obtain ⟨hsegments, hproot⟩ := segments_of_ofSegments? hp
  obtain ⟨ns, hwords, htexts⟩ := exists_names hnames
  -- The names split where the path has its last one.
  rw [← hsegments, Path.segments, List.map_append] at htexts
  obtain ⟨hops, ends, rfl, hhops, hends⟩ := List.map_eq_append_iff.1 htexts.symm
  obtain ⟨last, rfl, hlast⟩ := List.map_eq_singleton_iff.1 hends
  refine ⟨⟨root, hops, last⟩, ?_, ?_⟩
  · rw [words_cons, rootOf?_eq_some.1 hroot, hwords]
    rfl
  · rw [Phrase.Path.path, hhops, hlast, Path.unplaced, hproot]
    rfl

theorem exists_isPath {q : Phrase.Path} {ts : Tokens} (h : words ts = q.tokens) :
    ∃ p, IsPath ts p ∧ p.unplaced = q.path := by
  obtain ⟨t, r, rfl, ht, hr⟩ := List.map_eq_cons_iff.1 h
  obtain ⟨names, hnames, htexts⟩ := exists_areNames_of_names hr
  rw [Phrase.Path.names, List.map_append] at htexts
  obtain ⟨hops, ends, rfl, hhops, hends⟩ := List.map_eq_append_iff.1 htexts
  obtain ⟨last, rfl, hlast⟩ := List.map_eq_singleton_iff.1 hends
  have hp : Path.ofSegments? ⟨q.root, t.extent⟩ (hops ++ [last])
      = some ⟨⟨q.root, t.extent⟩, hops, last⟩ := by
    simp [Path.ofSegments?]
  refine ⟨_, .mk (rootOf?_eq_some.2 ht) hnames hp, ?_⟩
  rw [Path.unplaced, hhops, hlast]
  rfl

theorem exists_integers {ts : Tokens} {integers : List (Located (Word 64))}
    (h : AreIntegers ts integers) : ∃ ns : List (Word 64),
      words ts = behind .comma (ns.map Token.integer) ∧
        integers.map Located.unplaced = ns.map Located.nowhere := by
  induction h with
  | nil => exact ⟨[], rfl, rfl⟩
  | @cons t u ts n others before hn tail ih =>
    obtain ⟨ns, hwords, hothers⟩ := ih
    refine ⟨n :: ns, ?_, ?_⟩
    · simp [before, hn, hwords]
    · rw [List.map_cons, hothers]
      rfl

theorem exists_areIntegers_of_words {ns : List (Word 64)} {ts : Tokens}
    (h : words ts = behind .comma (ns.map Token.integer)) :
    ∃ integers, AreIntegers ts integers ∧
      integers.map Located.unplaced = ns.map Located.nowhere := by
  induction ns generalizing ts with
  | nil =>
    obtain rfl := List.map_eq_nil_iff.1 h
    exact ⟨[], .nil, rfl⟩
  | cons n ns ih =>
    obtain ⟨t, r, rfl, ht, hr⟩ := List.map_eq_cons_iff.1 h
    obtain ⟨u, us, rfl, hu, hus⟩ := List.map_eq_cons_iff.1 hr
    obtain ⟨integers, hintegers, hothers⟩ := ih hus
    refine ⟨_, .cons ht hu hintegers, ?_⟩
    rw [List.map_cons, hothers]
    rfl

theorem exists_term {levels : Nat} {ts : Tokens} {t : Term} (h : IsTerm levels ts t) :
    ∃ u : Phrase.Term, words ts = u.tokens ∧ u.nesting ≤ levels ∧ u.term = t.unplaced := by
  induction h with
  | path h =>
    obtain ⟨q, hwords, hpath⟩ := exists_path h
    exact ⟨.path q, hwords, Nat.zero_le _, congrArg Term.path hpath⟩
  | @call levels t u v ts us name argument integers ht opening hargument hintegers closing ih =>
    obtain ⟨argument', hwords, hnesting, hterm⟩ := ih
    obtain ⟨ns, hcommas, hintegers⟩ := exists_integers hintegers
    refine ⟨.call name argument' ns, ?_, Nat.succ_le_succ hnesting, ?_⟩
    · simp [ht, opening, closing, hwords, hcommas, Phrase.Term.tokens]
    · rw [Phrase.Term.term, hterm, ← hintegers]
      rfl

theorem exists_isTerm {u : Phrase.Term} {levels : Nat} {ts : Tokens} (h : words ts = u.tokens)
    (hnesting : u.nesting ≤ levels) : ∃ t, IsTerm levels ts t ∧ t.unplaced = u.term := by
  induction u generalizing levels ts with
  | path q =>
    obtain ⟨p, hp, hpath⟩ := exists_isPath h
    exact ⟨.path p, .path hp, congrArg Term.path hpath⟩
  | call name argument ns ih =>
    obtain ⟨levels, rfl⟩ := Nat.exists_eq_add_of_le' (Nat.le_trans (Nat.le_add_left 1 _) hnesting)
    obtain ⟨t, r, rfl, ht, hr⟩ := List.map_eq_cons_iff.1 h
    obtain ⟨u, us, rfl, hu, hus⟩ := List.map_eq_cons_iff.1 hr
    obtain ⟨vs, rest, rfl, hvs, hrest⟩ := List.map_eq_append_iff.1 hus
    obtain ⟨ws, xs, rfl, hws, hxs⟩ := List.map_eq_append_iff.1 hrest
    obtain ⟨x, rfl, hx⟩ := List.map_eq_singleton_iff.1 hxs
    obtain ⟨argument', hargument, hterm⟩ := ih hvs (Nat.le_of_succ_le_succ hnesting)
    obtain ⟨integers, hintegers, hothers⟩ := exists_areIntegers_of_words hws
    refine ⟨_, .call ht hu hargument hintegers hx, ?_⟩
    rw [Term.unplaced, hterm, hothers]
    rfl

/-! ## Methods -/

theorem exists_extend_of_parent? {p navigation : Path} {q : Phrase.Path}
    (hq : q.path = p.unplaced) (h : p.parent? = some navigation) :
    ∃ n : Phrase.Path, q = n.extend q.last ∧ n.path = navigation.unplaced := by
  obtain ⟨hsegments, hroot⟩ := segments_of_ofSegments? h
  have hhops : p.hops.map Located.unplaced = q.hops.map fun n => .nowhere n.text :=
    (congrArg Path.hops hq).symm
  rw [← hsegments, Path.segments, List.map_append] at hhops
  obtain ⟨hops, ends, heq, hhops, hends⟩ := List.map_eq_append_iff.1 hhops.symm
  obtain ⟨last, rfl, hlast⟩ := List.map_eq_singleton_iff.1 hends
  refine ⟨⟨q.root, hops, last⟩, ?_, ?_⟩
  · rw [Phrase.Path.extend, Phrase.Path.names, ← heq]
  · have hqroot : q.path.root = p.root.unplaced := congrArg Path.root hq
    rw [Path.unplaced, hroot, ← hqroot, ← hhops, ← hlast]
    rfl

theorem exists_parent?_of_extend {p : Path} {n : Phrase.Path} {name : Phrase.Name}
    (h : p.unplaced = (n.extend name).path) :
    ∃ navigation, p.parent? = some navigation ∧ navigation.unplaced = n.path := by
  have hhops : p.hops.map Located.unplaced = n.names.map fun n => .nowhere n.text :=
    congrArg Path.hops h
  have hroot : p.root.unplaced = .nowhere n.root := congrArg Path.root h
  rw [Phrase.Path.names, List.map_append] at hhops
  obtain ⟨hops, ends, heq, hhops, hends⟩ := List.map_eq_append_iff.1 hhops
  obtain ⟨last, rfl, hlast⟩ := List.map_eq_singleton_iff.1 hends
  refine ⟨⟨p.root, hops, last⟩, ?_, ?_⟩
  · simp [Path.parent?, Path.ofSegments?, heq]
  · rw [Path.unplaced, hroot, hhops, hlast]
    rfl

/-- No reserved word names a method. -/
theorem eq_word_of_ofMethod? {n : Phrase.Name} {test : Existence}
    (h : Existence.ofMethod? n.text = some test) : n = .word test.method := by
  cases n with
  | word name =>
    unfold Existence.ofMethod? Phrase.Name.text at h
    dsimp only at h
    split at h <;> cases h <;> rfl
  | reserved k => cases k <;> cases h

/-! ## From runs to phrases -/

theorem unplaced_combine {combination : Extent → Expression → List Expression → Expression}
    (hcombination : ∀ extent e es, (combination extent e es).unplaced =
      combination .blank e.unplaced (es.map Expression.unplaced))
    (first : Expression) (others : List Expression) :
    (combine combination first others).unplaced =
      Phrase.joined combination (first.unplaced, others.map Expression.unplaced) := by
  unfold combine
  cases others with
  | nil => rfl
  | cons e es =>
    rw [List.getLast?_cons]
    exact hcombination _ _ _

theorem unplaced_conjunction (extent : Extent) (e : Expression) (es : List Expression) :
    (Expression.conjunction extent e es).unplaced =
      .conjunction .blank e.unplaced (es.map Expression.unplaced) := by
  rw [Expression.unplaced, Expression.unplacedList_eq_map]

theorem unplaced_disjunction (extent : Extent) (e : Expression) (es : List Expression) :
    (Expression.disjunction extent e es).unplaced =
      .disjunction .blank e.unplaced (es.map Expression.unplaced) := by
  rw [Expression.unplaced, Expression.unplacedList_eq_map]

/-- A phrase that is not nested deeper than the levels has the tokens and stands for the
expression. -/
def Phrased (levels : Nat) (ts : Tokens) (e : Expression) : Prop :=
  ∃ d : Phrase.Composite, words ts = d.tokens ∧ d.nesting ≤ levels ∧ d.expression = e.unplaced

section

variable {levels : Nat} {ts : Tokens} {e : Expression}

/-- What stands inside brackets has one level less, and its phrase is known. -/
def InnerPhrased (levels : Nat) : Prop :=
  ∀ R, insideOf levels = some R →
    ∃ l, levels = l + 1 ∧ ∀ ⦃ts e⦄, R ts e → Phrased l ts e

theorem exists_test (hinner : InnerPhrased levels) {p : Path} {q : Phrase.Path} {us : Tokens}
    (hq : words us = q.tokens) (hpath : q.path = p.unplaced)
    (h : IsExistence (insideOf levels) p ts e) :
    ∃ (navigation : Phrase.Path) (test : Phrase.Test),
      words (us ++ ts) = navigation.tokens ++ test.tokens ∧ test.nesting ≤ levels ∧
        e.unplaced = .existence .blank navigation.path test.existence test.filter := by
  cases h with
  | @method t u ts navigation test filter htest hparent opening hfilter closing =>
    obtain ⟨n, heq, hnavigation⟩ := exists_extend_of_parent? hpath hparent
    have hlast : q.last.text = p.last.value := congrArg (·.last.value) hpath
    have hname : q.last = .word test.method := eq_word_of_ofMethod? (hlast ▸ htest)
    have htokens : q.tokens = n.tokens ++ [.symbol .dot, .identifier test.method] := by
      rw [heq, Phrase.Path.tokens_extend, hname]
      rfl
    cases hfilter with
    | empty hR =>
      obtain ⟨l, rfl, -⟩ := hinner _ hR
      refine ⟨n, .method test, ?_, Nat.le_add_left 1 l, ?_⟩
      · simp [hq, htokens, opening, closing, Phrase.Test.tokens]
      · rw [Expression.unplaced, hnavigation]
        rfl
    | filter hR he =>
      obtain ⟨l, rfl, hphrased⟩ := hinner _ hR
      obtain ⟨d, hwords, hnesting, hexpression⟩ := hphrased he
      refine ⟨n, .methodWith test d, ?_, Nat.succ_le_succ hnesting, ?_⟩
      · simp [hq, htokens, opening, closing, hwords, Phrase.Test.tokens]
      · rw [Expression.unplaced, Expression.unplacedFilter, hnavigation, ← hexpression]
        rfl
  | present ht =>
    refine ⟨q, .present, by simp [hq, ht, Phrase.Test.tokens], Nat.zero_le _, ?_⟩
    rw [Expression.unplaced, hpath]
    rfl
  | absent ht hu =>
    refine ⟨q, .absent, by simp [hq, ht, hu, Phrase.Test.tokens], Nat.zero_le _, ?_⟩
    rw [Expression.unplaced, hpath]
    rfl
  | absentWith hR ht hu opening he closing =>
    obtain ⟨l, rfl, hphrased⟩ := hinner _ hR
    obtain ⟨d, hwords, hnesting, hexpression⟩ := hphrased he
    refine ⟨q, .absentWith d, ?_, Nat.succ_le_succ hnesting, ?_⟩
    · simp [hq, ht, hu, opening, closing, hwords, Phrase.Test.tokens]
    · rw [Expression.unplaced, Expression.unplacedFilter, hpath, ← hexpression]
      rfl

theorem exists_primary (hinner : InnerPhrased levels)
    (h : IsPrimary levels (insideOf levels) ts e) :
    ∃ p : Phrase.Primary, words ts = p.tokens ∧ p.nesting ≤ levels ∧ p.expression = e.unplaced := by
  cases h with
  | all ht => exact ⟨.all, by simp [ht, Phrase.Primary.tokens], Nat.zero_le _, rfl⟩
  | none ht => exact ⟨.none, by simp [ht, Phrase.Primary.tokens], Nat.zero_le _, rfl⟩
  | group hR opening he closing =>
    obtain ⟨l, rfl, hphrased⟩ := hinner _ hR
    obtain ⟨d, hwords, hnesting, hexpression⟩ := hphrased he
    refine ⟨.group d, ?_, Nat.succ_le_succ hnesting, ?_⟩
    · simp [opening, closing, hwords, Phrase.Primary.tokens]
    · rw [Expression.unplaced, ← hexpression]
      rfl
  | leaf h =>
    cases h with
    | comparison hoperand h =>
      obtain ⟨operand, hwords, hnesting, hterm⟩ := exists_term hoperand
      cases h with
      | unary h =>
        refine ⟨.unary operand ⟨_, _, mem_unaryOperators h⟩, ?_, hnesting, ?_⟩
        · simp [hwords, Phrase.Primary.tokens]
        · rw [Expression.unplaced, ← hterm]
          rfl
      | binary hcomparator hparameter =>
        obtain ⟨parameter, hparameter, hliteral⟩ := exists_parameter hparameter
        refine ⟨.binary operand ⟨_, _, mem_binaryOperators hcomparator⟩ parameter, ?_, hnesting, ?_⟩
        · simp [hwords, hparameter, Phrase.Primary.tokens]
        · rw [Expression.unplaced, ← hterm, Located.unplaced, ← hliteral]
          rfl
    | existence hp h =>
      obtain ⟨q, hq, hpath⟩ := exists_path hp
      obtain ⟨navigation, test, hwords, hnesting, hexpression⟩ := exists_test hinner hq hpath h
      exact ⟨.existence navigation test, hwords, hnesting, hexpression.symm⟩

theorem exists_conjunction (hinner : InnerPhrased levels)
    (h : IsConjunction levels (insideOf levels) ts e) :
    ∃ c : Phrase.Conjunction, words ts = c.tokens ∧ c.nesting ≤ levels ∧
      c.expression = e.unplaced := by
  obtain ⟨first, others, hchain, rfl⟩ := h
  rw [unplaced_combine unplaced_conjunction]
  suffices hoperands : ∃ c : Phrase.Conjunction, words ts = c.tokens ∧ c.nesting ≤ levels ∧
      c.operands = (first.unplaced, others.map Expression.unplaced) by
    obtain ⟨c, hwords, hnesting, hoperands⟩ := hoperands
    exact ⟨c, hwords, hnesting, congrArg _ hoperands⟩
  generalize ha : (first, others) = a at hchain
  induction hchain generalizing first others with
  | one item =>
    cases ha
    obtain ⟨p, hwords, hnesting, hexpression⟩ := exists_primary hinner item
    exact ⟨.one p, hwords, hnesting, by rw [← hexpression]; rfl⟩
  | more item between tail ih =>
    cases ha
    obtain ⟨p, hwords, hnesting, hexpression⟩ := exists_primary hinner item
    obtain ⟨c, hrest, hnesting', hoperands⟩ := ih _ _ rfl
    refine ⟨.more p c, ?_, Nat.max_le.2 ⟨hnesting, hnesting'⟩, ?_⟩
    · simp [hwords, between, hrest, Phrase.Conjunction.tokens]
    · rw [Phrase.Conjunction.operands, hoperands, hexpression]
      rfl

theorem exists_composite (hinner : InnerPhrased levels)
    (h : IsDisjunction levels (insideOf levels) ts e) : Phrased levels ts e := by
  obtain ⟨first, others, hchain, rfl⟩ := h
  unfold Phrased
  rw [unplaced_combine unplaced_disjunction]
  suffices hoperands : ∃ c : Phrase.Composite, words ts = c.tokens ∧ c.nesting ≤ levels ∧
      c.operands = (first.unplaced, others.map Expression.unplaced) by
    obtain ⟨c, hwords, hnesting, hoperands⟩ := hoperands
    exact ⟨c, hwords, hnesting, congrArg _ hoperands⟩
  generalize ha : (first, others) = a at hchain
  induction hchain generalizing first others with
  | one item =>
    cases ha
    obtain ⟨c, hwords, hnesting, hexpression⟩ := exists_conjunction hinner item
    exact ⟨.one c, hwords, hnesting, by rw [← hexpression]; rfl⟩
  | more item between tail ih =>
    cases ha
    obtain ⟨c, hwords, hnesting, hexpression⟩ := exists_conjunction hinner item
    obtain ⟨d, hrest, hnesting', hoperands⟩ := ih _ _ rfl
    refine ⟨.more c d, ?_, Nat.max_le.2 ⟨hnesting, hnesting'⟩, ?_⟩
    · simp [hwords, between, hrest, Phrase.Composite.tokens]
    · rw [Phrase.Composite.operands, hoperands, ← hexpression]
      rfl

end

/-- What the grammar derives from a run is a phrase of its tokens. -/
theorem exists_phrase {levels : Nat} {ts : Tokens} {e : Expression}
    (h : IsExpression levels ts e) : Phrased levels ts e := by
  induction levels generalizing ts e with
  | zero =>
    have hinner : InnerPhrased 0 := fun R hR => nomatch hR
    exact exists_composite hinner h
  | succ levels ih =>
    have hinner : InnerPhrased (levels + 1) := by
      intro R hR
      cases hR
      exact ⟨levels, rfl, fun ts e he => ih he⟩
    exact exists_composite hinner h

/-! ## From phrases to runs -/

theorem exists_isExpression_of_chain {levels : Nat} {ts : Tokens} {d : Phrase.Composite}
    {a : Expression × List Expression}
    (h : Chain .pipe (IsConjunction levels (insideOf levels)) ts a)
    (ha : (a.1.unplaced, a.2.map Expression.unplaced) = d.operands) :
    ∃ e, IsExpression levels ts e ∧ e.unplaced = d.expression := by
  obtain ⟨first, others⟩ := a
  refine ⟨combine .disjunction first others, ?_, ?_⟩
  · rw [isExpression_eq]
    exact ⟨first, others, h, rfl⟩
  · rw [unplaced_combine unplaced_disjunction, ha]
    rfl

theorem exists_isLeaf_of_method {levels : Nat} {navigation : Phrase.Path} {existence : Existence}
    {us ws : Tokens} {t u v x : Located Token} {filter : Option Expression}
    (hus : words us = navigation.tokens) (ht : t.value = .symbol .dot)
    (hu : u.value = .identifier existence.method) (hv : v.value = .symbol .leftParen)
    (hx : x.value = .symbol .rightParen) (hfilter : IsFilter (insideOf levels) ws filter) :
    ∃ e, IsLeaf levels (insideOf levels) (us ++ t :: u :: v :: (ws ++ [x])) e ∧
      e.unplaced =
        .existence .blank navigation.path existence (Expression.unplacedFilter filter) := by
  -- The grammar takes the method for the last name of a path.
  have hwords : words (us ++ [t, u]) = (navigation.extend (.word existence.method)).tokens := by
    rw [Phrase.Path.tokens_extend]
    simp [hus, ht, hu, Phrase.Name.token]
  obtain ⟨p, hp, hpath⟩ := exists_isPath hwords
  have hlast : p.last.value = existence.method := congrArg (·.last.value) hpath
  have htest : Existence.ofMethod? p.last.value = some existence := by
    rw [hlast, Existence.ofMethod?_method]
  obtain ⟨parent, hparent, hnavigation⟩ := exists_parent?_of_extend hpath
  have happend : us ++ t :: u :: v :: (ws ++ [x]) = us ++ [t, u] ++ v :: (ws ++ [x]) := by simp
  rw [happend]
  refine ⟨_, .existence hp (.method htest hparent hv hfilter hx), ?_⟩
  rw [Expression.unplaced, hnavigation]

/-- What stands through a closing bracket has one level less. -/
theorem exists_bracketed {d : Phrase.Composite} {levels : Nat} {ts : Tokens} {closing : Token}
    (hd : ∀ {l : Nat} {us : Tokens}, words us = d.tokens → d.nesting ≤ l →
      ∃ a, Chain .pipe (IsConjunction l (insideOf l)) us a ∧
        (a.1.unplaced, a.2.map Expression.unplaced) = d.operands)
    (h : words ts = d.tokens ++ [closing]) (hnesting : d.nesting + 1 ≤ levels) :
    ∃ l us u e, levels = l + 1 ∧ ts = us ++ [u] ∧ u.value = closing ∧ IsExpression l us e ∧
      e.unplaced = d.expression := by
  obtain ⟨us, us', rfl, hus, hus'⟩ := List.map_eq_append_iff.1 h
  obtain ⟨u, rfl, hu⟩ := List.map_eq_singleton_iff.1 hus'
  have hlevels : levels = levels - 1 + 1 := by omega
  obtain ⟨a, hchain, ha⟩ := hd (l := levels - 1) hus (by omega)
  obtain ⟨e, he, hexpression⟩ := exists_isExpression_of_chain hchain ha
  exact ⟨levels - 1, us, u, e, hlevels, rfl, hu, he, hexpression⟩

mutual

theorem exists_disjuncts (d : Phrase.Composite) {levels : Nat} {ts : Tokens}
    (h : words ts = d.tokens) (hnesting : d.nesting ≤ levels) :
    ∃ a, Chain .pipe (IsConjunction levels (insideOf levels)) ts a ∧
      (a.1.unplaced, a.2.map Expression.unplaced) = d.operands := by
  cases d with
  | one c =>
    obtain ⟨⟨first, others⟩, hchain, ha⟩ := exists_conjuncts c h hnesting
    refine ⟨(combine .conjunction first others, []), .one ⟨first, others, hchain, rfl⟩, ?_⟩
    rw [unplaced_combine unplaced_conjunction, ha]
    rfl
  | more c d =>
    obtain ⟨us, rest, rfl, hus, hrest⟩ := List.map_eq_append_iff.1 h
    obtain ⟨t, vs, rfl, ht, hvs⟩ := List.map_eq_cons_iff.1 hrest
    obtain ⟨hc, hd⟩ := Nat.max_le.1 hnesting
    obtain ⟨⟨first, others⟩, hchain, ha⟩ := exists_conjuncts c hus hc
    obtain ⟨⟨second, seconds⟩, hchain', ha'⟩ := exists_disjuncts d hvs hd
    refine ⟨(combine .conjunction first others, second :: seconds),
      .more ⟨first, others, hchain, rfl⟩ ht hchain', ?_⟩
    rw [unplaced_combine unplaced_conjunction, ha, Phrase.Composite.operands, ← ha']
    rfl
termination_by structural d

theorem exists_conjuncts (c : Phrase.Conjunction) {levels : Nat} {ts : Tokens}
    (h : words ts = c.tokens) (hnesting : c.nesting ≤ levels) :
    ∃ a, Chain .ampersand (IsPrimary levels (insideOf levels)) ts a ∧
      (a.1.unplaced, a.2.map Expression.unplaced) = c.operands := by
  cases c with
  | one p =>
    obtain ⟨e, he, hexpression⟩ := exists_isPrimary p h hnesting
    exact ⟨(e, []), .one he, by rw [hexpression]; rfl⟩
  | more p c =>
    obtain ⟨us, rest, rfl, hus, hrest⟩ := List.map_eq_append_iff.1 h
    obtain ⟨t, vs, rfl, ht, hvs⟩ := List.map_eq_cons_iff.1 hrest
    obtain ⟨hp, hc⟩ := Nat.max_le.1 hnesting
    obtain ⟨e, he, hexpression⟩ := exists_isPrimary p hus hp
    obtain ⟨⟨second, seconds⟩, hchain, ha⟩ := exists_conjuncts c hvs hc
    refine ⟨(e, second :: seconds), .more he ht hchain, ?_⟩
    rw [hexpression, Phrase.Conjunction.operands, ← ha]
    rfl
termination_by structural c

theorem exists_isPrimary (p : Phrase.Primary) {levels : Nat} {ts : Tokens}
    (h : words ts = p.tokens) (hnesting : p.nesting ≤ levels) :
    ∃ e, IsPrimary levels (insideOf levels) ts e ∧ e.unplaced = p.expression := by
  cases p with
  | all =>
    obtain ⟨t, rfl, ht⟩ := List.map_eq_singleton_iff.1 h
    exact ⟨_, .all ht, rfl⟩
  | none =>
    obtain ⟨t, rfl, ht⟩ := List.map_eq_singleton_iff.1 h
    exact ⟨_, .none ht, rfl⟩
  | group inner =>
    obtain ⟨t, rest, rfl, ht, hrest⟩ := List.map_eq_cons_iff.1 h
    obtain ⟨l, us, u, e, rfl, rfl, hu, he, hexpression⟩ :=
      exists_bracketed (fun hus hl => exists_disjuncts inner hus hl) hrest hnesting
    refine ⟨_, .group rfl ht he hu, ?_⟩
    rw [Expression.unplaced, hexpression]
    rfl
  | existence navigation test =>
    obtain ⟨us, vs, rfl, hus, hvs⟩ := List.map_eq_append_iff.1 h
    obtain ⟨e, he, hexpression⟩ := exists_isLeaf_of_test test hus hvs hnesting
    exact ⟨e, .leaf he, hexpression⟩
  | unary operand operator =>
    obtain ⟨us, vs, rfl, hus, hvs⟩ := List.map_eq_append_iff.1 h
    obtain ⟨t, ht, hterm⟩ := exists_isTerm hus hnesting
    obtain ⟨stop, hoperator⟩ := exists_isUnary hvs
    refine ⟨_, .leaf (.comparison ht (.unary hoperator)), ?_⟩
    rw [Expression.unplaced, hterm]
    rfl
  | binary operand operator parameter =>
    obtain ⟨us, rest, rfl, hus, hrest⟩ := List.map_eq_append_iff.1 h
    obtain ⟨vs, ws, rfl, hvs, hws⟩ := List.map_eq_append_iff.1 hrest
    obtain ⟨t, ht, hterm⟩ := exists_isTerm hus hnesting
    have hoperator := exists_isComparator hvs
    obtain ⟨l, hl, hliteral⟩ := exists_isParameter hws
    refine ⟨_, .leaf (.comparison ht (.binary hoperator hl)), ?_⟩
    rw [Expression.unplaced, hterm, Located.unplaced, hliteral]
    rfl
termination_by structural p

theorem exists_isLeaf_of_test (test : Phrase.Test) {levels : Nat} {navigation : Phrase.Path}
    {us ts : Tokens} (hus : words us = navigation.tokens) (hts : words ts = test.tokens)
    (hnesting : test.nesting ≤ levels) :
    ∃ e, IsLeaf levels (insideOf levels) (us ++ ts) e ∧
      e.unplaced = .existence .blank navigation.path test.existence test.filter := by
  cases test with
  | present =>
    obtain ⟨t, rfl, ht⟩ := List.map_eq_singleton_iff.1 hts
    obtain ⟨p, hp, hpath⟩ := exists_isPath hus
    refine ⟨_, .existence hp (.present ht), ?_⟩
    rw [Expression.unplaced, hpath]
    rfl
  | absent =>
    obtain ⟨t, rest, rfl, ht, hrest⟩ := List.map_eq_cons_iff.1 hts
    obtain ⟨u, rfl, hu⟩ := List.map_eq_singleton_iff.1 hrest
    obtain ⟨p, hp, hpath⟩ := exists_isPath hus
    refine ⟨_, .existence hp (.absent ht hu), ?_⟩
    rw [Expression.unplaced, hpath]
    rfl
  | absentWith filter =>
    obtain ⟨t, r, rfl, ht, hr⟩ := List.map_eq_cons_iff.1 hts
    obtain ⟨u, s, rfl, hu, hs⟩ := List.map_eq_cons_iff.1 hr
    obtain ⟨v, rest, rfl, hv, hrest⟩ := List.map_eq_cons_iff.1 hs
    obtain ⟨l, ws, x, e, rfl, rfl, hx, he, hexpression⟩ :=
      exists_bracketed (fun hus hl => exists_disjuncts filter hus hl) hrest hnesting
    obtain ⟨p, hp, hpath⟩ := exists_isPath hus
    refine ⟨_, .existence hp (.absentWith rfl ht hu hv he hx), ?_⟩
    rw [Expression.unplaced, Expression.unplacedFilter, hpath, hexpression]
    rfl
  | method existence =>
    obtain ⟨levels, rfl⟩ := Nat.exists_eq_add_of_le' hnesting
    obtain ⟨t, r, rfl, ht, hr⟩ := List.map_eq_cons_iff.1 hts
    obtain ⟨u, s, rfl, hu, hs⟩ := List.map_eq_cons_iff.1 hr
    obtain ⟨v, rest, rfl, hv, hrest⟩ := List.map_eq_cons_iff.1 hs
    obtain ⟨x, rfl, hx⟩ := List.map_eq_singleton_iff.1 hrest
    exact exists_isLeaf_of_method hus ht hu hv hx (.empty rfl)
  | methodWith existence filter =>
    obtain ⟨t, r, rfl, ht, hr⟩ := List.map_eq_cons_iff.1 hts
    obtain ⟨u, s, rfl, hu, hs⟩ := List.map_eq_cons_iff.1 hr
    obtain ⟨v, rest, rfl, hv, hrest⟩ := List.map_eq_cons_iff.1 hs
    obtain ⟨l, ws, x, e, rfl, rfl, hx, he, hexpression⟩ :=
      exists_bracketed (fun hus hl => exists_disjuncts filter hus hl) hrest hnesting
    have hinner : IsFilter (insideOf (l + 1)) ws (some e) := .filter rfl he
    obtain ⟨f, hf, hfilter⟩ := exists_isLeaf_of_method hus ht hu hv hx hinner
    refine ⟨f, hf, ?_⟩
    rw [hfilter, Expression.unplacedFilter, hexpression]
    rfl
termination_by structural test

end

/-- The tokens of a phrase that is not nested deeper than the levels are derived as the phrase. -/
theorem exists_isExpression {d : Phrase.Composite} {levels : Nat} {ts : Tokens}
    (h : words ts = d.tokens) (hnesting : d.nesting ≤ levels) :
    ∃ e, IsExpression levels ts e ∧ e.unplaced = d.expression := by
  obtain ⟨a, hchain, ha⟩ := exists_disjuncts d h hnesting
  exact exists_isExpression_of_chain hchain ha

/-! ## Acceptance -/

/-- The grammar is not ambiguous. -/
theorem Phrase.Composite.tokens_injective : Function.Injective Phrase.Composite.tokens := by
  intro d d' h
  -- Both are derived from the same run, with room for the deeper of them.
  let ts : Tokens := d.tokens.map .nowhere
  have hts : words ts = d.tokens := by
    rw [words, List.map_map]
    exact List.map_id d.tokens
  let b : Bounds := ⟨0, max d.nesting d'.nesting⟩
  obtain ⟨e, he, hexpression⟩ := exists_isExpression hts (le_max_left d.nesting d'.nesting)
  obtain ⟨e', he', hexpression'⟩ :=
    exists_isExpression (hts.trans h) (le_max_right d.nesting d'.nesting)
  have hsame : e = e' := by
    have hread := (ofTokens_iff b).2 he
    have hread' := (ofTokens_iff b).2 he'
    exact Except.ok.inj (hread.symm.trans hread')
  have hphrases : d.expression = d'.expression := by
    rw [← hexpression, ← hexpression', hsame]
  have htokens : d.tokens ++ [] = d'.tokens ++ [] := by rw [h]
  exact (eq_of_tokens hphrases htokens).1

/-- The parser accepts the tokens of the phrases whose brackets are nested within the limit and
nothing else. There is one phrase of given tokens, and what the parser returns is that phrase with
the places of its parts. -/
theorem ofTokens_ok_iff_phrase (b : Bounds) (ts : Tokens) :
    ((∃ e, Expression.ofTokens b ts = .ok e) ↔
      ∃ d : Phrase.Composite, d.tokens = words ts ∧ d.nesting ≤ b.maxDepth) ∧
    (∀ d d' : Phrase.Composite, d.tokens = words ts → d'.tokens = words ts → d = d') ∧
    ∀ (e : Expression) (d : Phrase.Composite), Expression.ofTokens b ts = .ok e →
      d.tokens = words ts → e.unplaced = d.expression := by
  have hunique : ∀ d d' : Phrase.Composite, d.tokens = words ts → d'.tokens = words ts → d = d' :=
    fun d d' hd hd' => Phrase.Composite.tokens_injective (hd.trans hd'.symm)
  refine ⟨⟨?_, ?_⟩, hunique, ?_⟩
  · rintro ⟨e, he⟩
    obtain ⟨d, hwords, hnesting, -⟩ := exists_phrase ((ofTokens_iff b).1 he)
    exact ⟨d, hwords.symm, hnesting⟩
  · rintro ⟨d, hwords, hnesting⟩
    obtain ⟨e, he, -⟩ := exists_isExpression hwords.symm hnesting
    exact ⟨e, (ofTokens_iff b).2 he⟩
  · intro e d he hd
    obtain ⟨d', hwords, -, hexpression⟩ := exists_phrase ((ofTokens_iff b).1 he)
    rw [← hexpression, hunique d d' hd hwords.symm]

/-- The tokens of `this.in.exists(all & none)`. -/
def existsInside : Tokens :=
  [⟨.keyword .thisWord, ⟨0, 4⟩⟩, ⟨.symbol .dot, ⟨4, 5⟩⟩, ⟨.keyword .inWord, ⟨5, 7⟩⟩,
    ⟨.symbol .dot, ⟨7, 8⟩⟩, ⟨.identifier "exists", ⟨8, 14⟩⟩, ⟨.symbol .leftParen, ⟨14, 15⟩⟩,
    ⟨.keyword .allWord, ⟨15, 18⟩⟩, ⟨.symbol .ampersand, ⟨19, 20⟩⟩, ⟨.keyword .noneWord, ⟨21, 25⟩⟩,
    ⟨.symbol .rightParen, ⟨25, 26⟩⟩]

/-- The phrase of these tokens, in which a reserved word is the name of a relationship. -/
def existsInsidePhrase : Phrase.Composite :=
  .one (.one (.existence ⟨.this, [], .reserved .inWord⟩
    (.methodWith .present (.one (.more .all (.one .none))))))

/-- The tokens are read with room for one bracket, and with room for none they are not. -/
theorem existsInside_ok_iff :
    (∃ e, Expression.ofTokens ⟨26, 1⟩ existsInside = .ok e ∧
      e.unplaced = existsInsidePhrase.expression) ∧
    ¬ ∃ e, Expression.ofTokens ⟨26, 0⟩ existsInside = .ok e := by
  have htokens : existsInsidePhrase.tokens = words existsInside := rfl
  constructor
  · obtain ⟨haccepted, -, hread⟩ := ofTokens_ok_iff_phrase ⟨26, 1⟩ existsInside
    obtain ⟨e, he⟩ := haccepted.2 ⟨existsInsidePhrase, htokens, Nat.le_refl 1⟩
    exact ⟨e, he, hread e existsInsidePhrase he htokens⟩
  · intro h
    obtain ⟨haccepted, hunique, -⟩ := ofTokens_ok_iff_phrase ⟨26, 0⟩ existsInside
    obtain ⟨d, hd, hnesting⟩ := haccepted.1 h
    obtain rfl := hunique d existsInsidePhrase hd htokens
    exact absurd hnesting (by decide)

end Criteria.Language
