import Criteria.Proofs.Language.Acceptance
import Criteria.Proofs.Language.ReadBack
import Criteria.Proofs.Language.Rendering

/-! # Phrases of written predicates

The text of a well-typed predicate in normal form is cut into the tokens of a phrase whose brackets
are nested as deep as those of the predicate (`spelled_of_wellTyped`). The values do not matter for
that: those that are not read back are written as literals all the same. So the text parses wherever
brackets may be nested that deep (`parse_text_of_le`).
-/

set_option autoImplicit false

namespace Criteria.Language

open Number Text Calendar Grammar Criteria.Language.Derivation
open Phrase (behind)
open Predicate (deepestOf)

/-! ## Phrases of texts -/

/-- The text is cut into the tokens of a phrase whose brackets are nested so deep. -/
def Spells {α : Type} (tokens : α → List Token) (depth : α → Nat) (text : List Char) (n : Nat) :
    Prop :=
  ∃ a, Written closes text (tokens a) ∧ depth a = n

/-- The texts of items with a separator between them spell a chain of the items. -/
theorem spells_chain {α β κ : Type} (tokens' : κ → List Token) (depth' : κ → Nat)
    {separator : Symbol} {between : List Char} (hbetween : Separates closes between separator)
    {tokens : α → List Token} {depth : α → Nat}
    (one : ∀ a, ∃ k, tokens' k = tokens a ∧ depth' k = depth a)
    (more : ∀ a k, ∃ k', tokens' k' = tokens a ++ .symbol separator :: tokens' k ∧
      depth' k' = max (depth a) (depth' k))
    {text : β → List Char} {n : β → Nat} {first : β} {others : List β}
    (h : ∀ x ∈ first :: others, Spells tokens depth (text x) (n x)) :
    Spells tokens' depth' (text first ++ others.flatMap fun x => between ++ text x)
      (deepestOf n (first :: others)) := by
  induction others generalizing first with
  | nil =>
    obtain ⟨a, hwritten, hdepth⟩ := h first List.mem_cons_self
    obtain ⟨k, htokens, hdepth'⟩ := one a
    refine ⟨k, ?_, ?_⟩
    · rw [htokens]
      simpa using hwritten
    · simp [deepestOf, hdepth', hdepth]
  | cons second others ih =>
    obtain ⟨a, hwritten, hdepth⟩ := h first List.mem_cons_self
    obtain ⟨k, hwritten', hdepth'⟩ := ih fun x hx => h x (List.mem_cons_of_mem _ hx)
    obtain ⟨k', htokens, hdepth''⟩ := more a k
    refine ⟨k', ?_, ?_⟩
    · have htail := hbetween.written.append hwritten' fun rest _ => ends_any _
      have hall := hwritten.append htail fun rest _ => by
        rw [List.append_assoc]
        exact hbetween.ends _
      rw [htokens]
      simpa using hall
    · rw [hdepth'', hdepth, hdepth']
      rfl

/-- What renders a production is written with the tokens of a run that the production derives. -/
theorem Renders.exists_words {α : Type} {sort : Char → Bool} {text : List Char} {R : Production α}
    {P : α → Prop} (h : Renders sort text R P) :
    ∃ ts a, Written sort text (words ts) ∧ R ts a ∧ P a := by
  obtain ⟨us, hwritten, hderives⟩ := h
  have hwords : words (us.map Located.nowhere) = us := by
    rw [words, List.map_map]
    exact List.map_id us
  obtain ⟨a, ha, hP⟩ := hderives _ hwords
  exact ⟨_, a, hwords.symm ▸ hwritten, ha, hP⟩

/-! ## References -/

/-- How deep functions are nested in a term. -/
def Term.nesting : Term → Nat
  | path _ => 0
  | call _ _ argument _ => argument.nesting + 1

theorem Phrase.Term.nesting_eq {u : Phrase.Term} {t : Language.Term} (h : u.term = t.unplaced) :
    u.nesting = t.nesting := by
  induction u generalizing t with
  | path p =>
    cases t with
    | path q => rfl
    | call extent name argument integers => cases h
  | call name argument integers ih =>
    cases t with
    | path q => cases h
    | call extent name' argument' integers' =>
      obtain ⟨-, -, hargument, -⟩ := Language.Term.call.inj h
      rw [Phrase.Term.nesting, Language.Term.nesting, ih hargument]

/-- A term resolves to as many functions as it calls. -/
theorem Term.nesting_of_resolve {c : Catalog} {s : Scope} {t : Term} {a : AttributeRef}
    (h : t.resolve c s = .ok a) : a.nesting = t.nesting := by
  induction t generalizing a with
  | path p =>
    simp only [Term.resolve, Path.resolve, bind_eq_ok, Catalog.attributeRef_iff] at h
    obtain ⟨-, -, target, -, found, -, rfl⟩ := h
    rfl
  | call extent name argument integers ih =>
    simp only [Term.resolve, bind_eq_ok, AttributeRef.apply_iff] at h
    obtain ⟨source, hsource, function, -, -, -, rfl⟩ := h
    rw [AttributeRef.nesting, Term.nesting, ih hsource]

/-- The text of a well-typed reference is that of a term with as many calls. -/
theorem exists_written_reference {c : Catalog} {root : String} {a : AttributeRef}
    (ha : a.WellTyped c root) (hnamed : a.Named IsWord) :
    ∃ u : Phrase.Term, Written endsWord a.text.toList u.tokens ∧ u.nesting = a.nesting := by
  obtain ⟨ts, t, hwritten, ht, hresolves⟩ :=
    (renders_reference ha hnamed (Nat.le_refl a.nesting)).exists_words
  obtain ⟨u, hwords, -, hterm⟩ := exists_term ht
  refine ⟨u, hwords ▸ hwritten, ?_⟩
  rw [Term.nesting_of_resolve hresolves, Phrase.Term.nesting_eq hterm]

/-! ## Operators and values -/

theorem exists_written_unary {c : Comparator} (h : c.cardinality? = none) :
    ∃ o : Phrase.Spelling Phrase.unaryOperators, Written endsWord c.symbol.toList o.tokens := by
  obtain ⟨ts, ⟨found, stop⟩, hwritten, hunary, -⟩ := (renders_unary h).exists_words
  exact ⟨⟨words ts, found, mem_unaryOperators hunary⟩, hwritten⟩

theorem exists_written_comparator {c : Comparator} (h : c.cardinality?.isSome) :
    ∃ o : Phrase.Spelling Phrase.binaryOperators, Written isSpace c.symbol.toList o.tokens := by
  obtain ⟨ts, found, hwritten, hcomparator, -⟩ := (renders_comparator h).exists_words
  exact ⟨⟨words ts, found, mem_binaryOperators hcomparator⟩, hwritten⟩

/-- A text that stands for itself between quotes is a string. -/
theorem written_plain {s : String} (h : IsPlain s.toList) :
    Written closes ("\"" ++ s ++ "\"").toList [.string s] := by
  rw [← quoted_of_plain h]
  exact (written_quoted s).mono fun _ _ => rfl

/-- The text of a value is a literal, read back or not. -/
theorem exists_written_value {t : ValueType} {v : Value} (hv : v.HasType t) :
    ∃ s : Phrase.Scalar, Written closes v.text.toList [s.token] := by
  cases v with
  | string s => exact ⟨.string s, (written_quoted s).mono fun _ _ => rfl⟩
  | boolean b =>
    obtain ⟨ts, l, hwritten, hliteral, -⟩ := (renders_boolean b).exists_words
    obtain ⟨s, hwords, -⟩ := exists_scalar hliteral
    exact ⟨s, hwords ▸ hwritten⟩
  | integer n => exact ⟨.integer n.widen, written_integer n.widen rfl⟩
  | long n => exact ⟨.integer n, written_integer n rfl⟩
  | float x =>
    have hfinite : x.isFinite = true := by
      cases t with
      | float => exact hv
      | _ => exact hv.elim
    obtain ⟨y, -, -, hlexes⟩ := Value.exists_lexes_single hfinite
    exact ⟨.float y, Written.of_lexes fun rest hrest => hlexes rest (ended_of_closes hrest)⟩
  | double x =>
    have hfinite : x.isFinite = true := by
      cases t with
      | double => exact hv
      | _ => exact hv.elim
    exact ⟨.float x,
      Written.of_lexes fun rest hrest => lexes_double hfinite (ended_of_closes hrest)⟩
  | date d => exact ⟨.string d.text, written_plain (isPlain_date d)⟩
  | timestamp i => exact ⟨.string i.text, written_plain (isPlain_instant i)⟩

/-- The text of a parameter is a literal or a list of them. -/
theorem exists_written_parameter {limits : Limits} {t : ValueType} {cardinality : Cardinality}
    {parameter : Parameter} (hfits : parameter.Fits limits t (some cardinality)) :
    ∃ p : Phrase.Parameter, Written closes parameter.text.toList p.tokens := by
  cases parameter with
  | none => cases cardinality <;> exact hfits.elim
  | one v =>
    cases cardinality with
    | many => exact hfits.elim
    | one =>
      obtain ⟨s, hwritten⟩ := exists_written_value hfits
      exact ⟨.scalar s, hwritten⟩
  | many vs =>
    cases cardinality with
    | one => exact hfits.elim
    | many =>
      obtain ⟨hne, -, -, htypes⟩ := hfits
      obtain ⟨first, others, rfl⟩ := List.exists_cons_of_ne_nil hne
      -- Values have no brackets, so nothing is said about how deep they are nested.
      have hvalues : ∀ v ∈ first :: others, Spells (fun s : Phrase.Scalar => [s.token])
          (fun _ => 0) v.text.toList 0 := by
        intro v hv
        obtain ⟨s, hwritten⟩ := exists_written_value (htypes v hv)
        exact ⟨s, hwritten, rfl⟩
      obtain ⟨⟨s, ss⟩, hwritten, -⟩ := spells_chain
        (fun a : Phrase.Scalar × List Phrase.Scalar =>
          a.1.token :: behind .comma (a.2.map Phrase.Scalar.token))
        (fun _ => 0) separates_comma (fun s => ⟨(s, []), rfl, rfl⟩)
        (fun s a => ⟨(s, a.1 :: a.2), rfl, rfl⟩) hvalues
      have htext : (Parameter.many (first :: others)).text.toList = _ :=
        toList_parenthesized Value.text first others
      refine ⟨.list s ss, ?_⟩
      rw [htext]
      have hinside := hwritten.append_cons written_rightParen rfl
      exact (written_leftParen.append hinside fun _ _ => ends_any _).mono fun _ _ => rfl

/-! ## Predicates -/

section

variable {c : Catalog} {limits : Limits} {root : String}

/-- The text of a comparison is an operand whose brackets are those of its functions. -/
theorem spells_comparison {found : Comparison} (h : found.WellTyped c limits root)
    (hnamed : found.operand.Named IsWord) :
    Spells Phrase.Primary.tokens Phrase.Primary.nesting found.text.toList
      found.operand.nesting := by
  obtain ⟨u, hoperand, hdepth⟩ := exists_written_reference h.operand hnamed
  by_cases hparameter : found.parameter = .none
  · obtain ⟨o, hoperator⟩ := exists_written_unary (h.fits.eq_none_iff.2 hparameter)
    refine ⟨.unary u o, ?_, hdepth⟩
    rw [toList_text_of_none hparameter]
    have hall := hoperand.append_cons hoperator.blank (by decide)
    exact hall.mono fun _ => endsWord_of_closes
  · have hsome : found.comparator.cardinality? ≠ none := fun hnone =>
      hparameter (h.fits.eq_none_iff.1 hnone)
    obtain ⟨cardinality, hcardinality⟩ := Option.ne_none_iff_exists'.1 hsome
    obtain ⟨o, hoperator⟩ := exists_written_comparator (Option.isSome_iff_ne_none.2 hsome)
    obtain ⟨p, hvalues⟩ := exists_written_parameter (hcardinality ▸ h.fits)
    refine ⟨.binary u o p, ?_, hdepth⟩
    rw [toList_text_of_ne_none hparameter]
    have happlication := hoperator.append_cons hvalues.blank (by decide)
    exact hoperand.append_cons happlication.blank (by decide)

/-- The text of a filter in the parentheses of a method. -/
theorem exists_method (test : Existence) {filter : Option Predicate}
    (h : ∀ p ∈ filter, Spells Phrase.Composite.tokens Phrase.Composite.nesting p.text.toList
      p.nesting) :
    ∃ t : Phrase.Test, t.nesting = Predicate.filterNesting filter + 1 ∧
      ∃ us, Written closes (Predicate.filterText filter).toList us ∧
        t.tokens = .symbol .dot :: .identifier test.method :: .symbol .leftParen ::
          (us ++ [.symbol .rightParen]) := by
  cases filter with
  | none => exact ⟨.method test, rfl, [], Written.nil, rfl⟩
  | some p =>
    obtain ⟨d, hwritten, hdepth⟩ := h p rfl
    exact ⟨.methodWith test d, congrArg (· + 1) hdepth, d.tokens, hwritten, rfl⟩

/-- The text of an existence test is an operand with one bracket more than its filter. -/
theorem spells_existence {test : Existence} {r : RelationshipPath} {filter : Option Predicate}
    (hr : r.WellTyped c root) (hnamed : r.Named IsWord)
    (h : ∀ p ∈ filter, Spells Phrase.Composite.tokens Phrase.Composite.nesting p.text.toList
      p.nesting) :
    Spells Phrase.Primary.tokens Phrase.Primary.nesting
      (Predicate.existence test r filter).text.toList
      (Predicate.existence test r filter).nesting := by
  obtain ⟨us, p, hwritten, hp, -⟩ := (renders_path hr.nonempty hnamed).exists_words
  obtain ⟨q, hwords, -⟩ := exists_path hp
  obtain ⟨t, hdepth, vs, hfilter, htokens⟩ := exists_method test h
  have hmethod : Written endsWord test.method.toList [.identifier test.method] := by
    have hword := written_word (isWord_method test)
    have hidentifier : Token.ofWord test.method = .identifier test.method := by
      cases test <;> rfl
    rwa [hidentifier] at hword
  refine ⟨.existence q t, ?_, ?_⟩
  · have htext : (Predicate.existence test r filter).text.toList =
        (".".intercalate ("this" :: r.segments)).toList ++ '.' :: (test.method.toList ++
          '(' :: ((Predicate.filterText filter).toList ++ [')'])) := by
      simp [Predicate.text, RelationshipPath.text, toString]
    -- From the inside out: the filter, its parentheses, the name of the method, and its dot.
    have hclosed := hfilter.append_cons written_rightParen rfl
    have hparentheses := written_leftParen.append hclosed fun _ _ => ends_any _
    have hcall := hmethod.append_cons hparentheses (by decide)
    have hdot := written_dot.append hcall fun _ _ => ends_any _
    have hall := hwritten.append_cons hdot (by decide)
    rw [htext, Phrase.Primary.tokens, htokens, ← hwords]
    exact hall.mono fun _ _ => rfl
  · rw [Phrase.Primary.nesting, hdepth, Predicate.nesting]

/-- The text of the predicate is spelled by the production for its shape. -/
structure Spelled (p : Predicate) : Prop where
  primary : p.isDisjunction = false → p.isConjunction = false →
    Spells Phrase.Primary.tokens Phrase.Primary.nesting p.text.toList p.nesting
  conjunction : p.isDisjunction = false →
    Spells Phrase.Conjunction.tokens Phrase.Conjunction.nesting p.text.toList p.nesting
  composite : Spells Phrase.Composite.tokens Phrase.Composite.nesting p.text.toList p.nesting

theorem Spells.composite {text : List Char} {n : Nat}
    (h : Spells Phrase.Conjunction.tokens Phrase.Conjunction.nesting text n) :
    Spells Phrase.Composite.tokens Phrase.Composite.nesting text n := by
  obtain ⟨a, hwritten, hdepth⟩ := h
  exact ⟨.one a, hwritten, hdepth⟩

theorem Spelled.of_primary {p : Predicate}
    (h : Spells Phrase.Primary.tokens Phrase.Primary.nesting p.text.toList p.nesting) :
    Spelled p := by
  have hconjunction : Spells Phrase.Conjunction.tokens Phrase.Conjunction.nesting p.text.toList
      p.nesting := by
    obtain ⟨a, hwritten, hdepth⟩ := h
    exact ⟨.one a, hwritten, hdepth⟩
  exact ⟨fun _ _ => h, fun _ => hconjunction, hconjunction.composite⟩

/-- A child of a conjunction is an operand, in parentheses if it is a disjunction. -/
theorem Spelled.conjunctText {p : Predicate} (h : Spelled p) (hflat : p.isConjunction = false) :
    Spells Phrase.Primary.tokens Phrase.Primary.nesting (conjunctText p).toList
      p.operandNesting := by
  unfold Language.conjunctText Predicate.operandNesting
  cases hdisjunction : p.isDisjunction with
  | false => exact h.primary hdisjunction hflat
  | true =>
    obtain ⟨d, hwritten, hdepth⟩ := h.composite
    refine ⟨.group d, ?_, congrArg (· + 1) hdepth⟩
    have htext : ("(" ++ p.text ++ ")").toList = '(' :: (p.text.toList ++ [')']) := by simp
    have hclosed := hwritten.append_cons written_rightParen rfl
    rw [if_pos rfl, htext]
    exact (written_leftParen.append hclosed fun _ _ => ends_any _).mono fun _ _ => rfl

theorem spelled_conjunction {children : List Predicate} (several : 2 ≤ children.length)
    (flat : ∀ p ∈ children, p ≠ Predicate.all ∧ p.isConjunction = false)
    (h : ∀ p ∈ children, Spelled p) : Spelled (.conjunction children) := by
  obtain ⟨first, second, others, rfl⟩ := exists_cons_cons several
  have hitems : ∀ p ∈ first :: second :: others, Spells Phrase.Primary.tokens
      Phrase.Primary.nesting (conjunctText p).toList p.operandNesting :=
    fun p hp => (h p hp).conjunctText (flat p hp).2
  have hchain := spells_chain Phrase.Conjunction.tokens Phrase.Conjunction.nesting
    separates_ampersand (fun p => ⟨.one p, rfl, rfl⟩) (fun p c => ⟨.more p c, rfl, rfl⟩) hitems
  have hconjunction : Spells Phrase.Conjunction.tokens Phrase.Conjunction.nesting
      (Predicate.conjunction (first :: second :: others)).text.toList
      (Predicate.conjunction (first :: second :: others)).nesting := by
    rw [Predicate.text, conjunctTexts_eq, toList_intercalate_map, Predicate.nesting,
      Predicate.conjunctNesting_eq]
    exact hchain
  refine ⟨fun _ hshape => ?_, fun _ => hconjunction, hconjunction.composite⟩
  cases hshape

theorem spelled_disjunction {children : List Predicate} (several : 2 ≤ children.length)
    (flat : ∀ p ∈ children, p.isDisjunction = false)
    (h : ∀ p ∈ children, Spelled p) : Spelled (.disjunction children) := by
  obtain ⟨first, second, others, rfl⟩ := exists_cons_cons several
  have hitems : ∀ p ∈ first :: second :: others, Spells Phrase.Conjunction.tokens
      Phrase.Conjunction.nesting p.text.toList p.nesting :=
    fun p hp => (h p hp).conjunction (flat p hp)
  have hchain := spells_chain Phrase.Composite.tokens Phrase.Composite.nesting
    separates_pipe (fun p => ⟨.one p, rfl, rfl⟩) (fun p c => ⟨.more p c, rfl, rfl⟩) hitems
  refine ⟨nofun, nofun, ?_⟩
  rw [Predicate.text, disjunctTexts_eq, toList_intercalate_map, Predicate.nesting,
    Predicate.disjunctNesting_eq]
  exact hchain

theorem spelled_word {p : Predicate} {k : Keyword} {q : Phrase.Primary}
    (htext : p.text = k.text) (htokens : q.tokens = [Token.ofWord k.text])
    (hdepth : q.nesting = p.nesting) : Spelled p := by
  refine .of_primary ⟨q, ?_, hdepth⟩
  rw [htext, htokens]
  exact (written_word k.isWord_text).mono fun _ => endsWord_of_closes

/-- By induction on the predicate, with the shapes of its parts. -/
theorem spelled_of_wellTyped {p : Predicate} (hwellTyped : p.WellTyped c limits root)
    (hnamed : p.Named IsWord root) (hnormal : p.Normal) : Spelled p := by
  have heverywhere := hwellTyped.both hnamed
  clear hwellTyped hnamed
  induction heverywhere with
  | all => exact spelled_word (k := .allWord) (q := .all) rfl rfl rfl
  | none => exact spelled_word (k := .noneWord) (q := .none) rfl rfl rfl
  | conjunction inner ih =>
    cases hnormal with
    | conjunction several flat hnormal =>
      exact spelled_conjunction several flat fun p hp => ih p hp (hnormal p hp)
  | disjunction inner ih =>
    cases hnormal with
    | disjunction several flat hnormal =>
      exact spelled_disjunction several flat fun p hp => ih p hp (hnormal p hp)
  | existence path inner ih =>
    cases hnormal with
    | existence hnormal =>
      refine .of_primary (spells_existence path.1 path.2 ?_)
      exact fun p hp => (ih p hp (hnormal p hp)).composite
  | comparison holds => exact .of_primary (spells_comparison holds.1 holds.2)

/-! ## Parsing the text -/

/-- The text of a predicate has a phrase, nested as deep as the predicate. -/
theorem exists_phrase_of_text {p : Predicate} (h : Spelled p) :
    ∃ (ts : Tokens) (d : Phrase.Composite), tokenize p.text = .ok ts ∧ d.tokens = words ts ∧
      d.nesting = p.nesting := by
  obtain ⟨d, hwritten, hdepth⟩ := h.composite
  obtain ⟨ts, hts, hvalues⟩ := hwritten.exists_tokens
  exact ⟨ts, d, hts, hvalues.symm, hdepth⟩

/-- The text of a predicate parses where its brackets may be nested as deep as they are. -/
theorem parse_text_of_le {p : Predicate} (h : Spelled p) {maxDepth : Nat}
    (hdepth : p.nesting ≤ maxDepth) : ∃ e, Expression.parse maxDepth p.text = .ok e := by
  obtain ⟨ts, d, hts, hwords, hnesting⟩ := exists_phrase_of_text h
  obtain ⟨e, he, -⟩ := exists_isExpression hwords.symm (hnesting.le.trans hdepth)
  exact ⟨e, bind_eq_ok.2 ⟨ts, hts, (ofTokens_iff _).2 he⟩⟩

end

end Criteria.Language
