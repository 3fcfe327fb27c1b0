import Criteria.Proofs.Language.Reading

/-! # The parser and the grammar

Leaves, conjunctions and disjunctions are read as the grammar derives them, given that of what
stands inside their brackets. So the parser reads exactly what the grammar derives
(`ofTokens_iff`).
-/

set_option autoImplicit false

namespace Criteria.Language

open Number Grammar Criteria.Language.Derivation

variable (b : Bounds)

/-! ## Leaves -/

/-- Whether a token may stand behind an expression. -/
def followsExpression (t : Token) : Bool := t = .symbol .rightParen || t = .symbol .rightBrace

/-- Whether a token may stand behind a conjunction. -/
def followsConjunction (t : Token) : Bool := t = .symbol .pipe || followsExpression t

/-- Whether a token may stand behind an operand of a conjunction. -/
def followsPrimary (t : Token) : Bool := t = .symbol .ampersand || followsConjunction t

/-- What is read inside a bracket is derived by what may stand there. -/
def InsideSound (inside : Inside) (Inner : Option (Production Expression)) : Prop :=
  ∀ f, inside = some f → ∃ R, Inner = some R ∧ Sound f R

/-- What may stand inside a bracket is read there. -/
def InsideComplete (inside : Inside) (Inner : Option (Production Expression)) : Prop :=
  ∀ R, Inner = some R → ∃ f, inside = some f ∧ Complete followsExpression f R

section

variable {inside : Inside} {Inner : Option (Production Expression)}

theorem bracketed_sound (hinside : InsideSound inside Inner) {position : Nat} {closing : Symbol}
    {expected : Expected} {ts rest : Tokens} {e : Expression} {extent : Extent}
    {hlt : rest.length < ts.length}
    (h : bracketed b inside position closing expected ts = .ok ((e, extent), ⟨rest, hlt⟩)) :
    ∃ R taken u, Inner = some R ∧ R taken e ∧ ts = taken ++ u :: rest ∧
      u.value = .symbol closing ∧ u.extent = extent := by
  unfold bracketed at h
  split at h
  · cases h
  · rename_i f
    obtain ⟨R, hR, hsound⟩ := hinside f rfl
    simp only [bind_eq_ok] at h
    obtain ⟨⟨e, ⟨s, hs⟩⟩, he, ⟨extent, ⟨rest', h'⟩⟩, hclosing, h⟩ := h
    cases h
    obtain ⟨taken, rfl, htaken⟩ := hsound he
    obtain ⟨u, rfl, hu, rfl⟩ := require_sound b hclosing
    exact ⟨R, taken, u, hR, htaken, rfl, hu, rfl⟩

theorem bracketed_complete (hinside : InsideComplete inside Inner) {R : Production Expression}
    (hR : Inner = some R) {ts : Tokens} {e : Expression} (he : R ts e) {u : Located Token}
    {closing : Symbol} (hu : u.value = .symbol closing)
    (hclosing : followsExpression (.symbol closing) = true) (position : Nat) (expected : Expected)
    (rest : Tokens) :
    ∃ hlt, bracketed b inside position closing expected (ts ++ u :: rest)
      = .ok ((e, u.extent), ⟨rest, hlt⟩) := by
  obtain ⟨f, rfl, hcomplete⟩ := hinside R hR
  obtain ⟨hlt, hread⟩ := hcomplete he (Before.cons (t := u) (hu ▸ hclosing))
  refine ⟨by simp only [List.length_append, List.length_cons]; omega, ?_⟩
  unfold bracketed
  simp only [bind_eq_ok]
  exact ⟨_, hread, _, require_complete b hu, rfl⟩

theorem comparison_sound (operand : Term) :
    Sound (comparison b operand) (IsComparison operand) := by
  intro ts e rest hlt h
  unfold comparison at h
  obtain ⟨found, hfound, h⟩ := bind_eq_ok.1 h
  split at h
  · cases h
    obtain ⟨taken, rfl, hunary⟩ := unaryComparator?_sound b hfound
    exact ⟨taken, rfl, .unary hunary⟩
  · simp only [bind_eq_ok] at h
    obtain ⟨⟨c, ⟨s, hs⟩⟩, hc, ⟨l, ⟨rest', h'⟩⟩, hl, h⟩ := h
    cases h
    obtain ⟨taken, rfl, hcomparator⟩ := comparator_sound b hc
    obtain ⟨taken', rfl, hparameter⟩ := parameter_sound b hl
    exact ⟨taken ++ taken', by simp, .binary hcomparator hparameter⟩

/-- No operator that takes a parameter starts like one that takes none. -/
theorem startsUnary_comparator {ts : Tokens} {c : Comparator} (h : IsComparator ts c)
    (rest : Tokens) : Before (fun t => !startsUnary t) (ts ++ rest) := by
  cases h with
  | @plain t _ h =>
    refine Before.cons ?_
    -- What starts an operator without parameter is no operator with one.
    by_contra hunary
    simp only [startsUnary, Bool.not_eq_true', Bool.not_eq_false, Bool.or_eq_true,
      decide_eq_true_eq] at hunary
    rcases hunary with hunary | hunary <;> rw [hunary] at h <;> cases h
  | negated before h => exact Before.cons (by rw [before]; rfl)

theorem comparison_complete (operand : Term) :
    Complete anyToken (comparison b operand) (IsComparison operand) := by
  intro ts e rest h hrest
  cases h with
  | unary h =>
    obtain ⟨hlt, hread⟩ := unaryComparator?_complete b h rest
    refine ⟨hlt, ?_⟩
    unfold comparison
    exact bind_eq_ok.2 ⟨_, hread, rfl⟩
  | @binary ts us c l hcomparator hparameter =>
    have hany : Before anyToken (us ++ rest) := fun _ _ => rfl
    obtain ⟨hlt, hread⟩ := comparator_complete b hcomparator hany
    obtain ⟨hlt', hread'⟩ := parameter_complete b hparameter hrest
    rw [List.append_assoc]
    refine ⟨Nat.lt_trans hlt' hlt, ?_⟩
    unfold comparison
    -- Operators without parameter are tried first and do not apply.
    refine bind_eq_ok.2 ⟨_, unaryComparator?_none b (startsUnary_comparator hcomparator _), ?_⟩
    simp only [bind_eq_ok]
    exact ⟨_, hread, _, hread', rfl⟩

theorem methodFilter_sound (hinside : InsideSound inside Inner) {position : Nat}
    {ts rest : Tokens} {filter : Option Expression} {extent : Extent}
    {hlt : rest.length < ts.length}
    (h : methodFilter b inside position ts = .ok ((filter, extent), ⟨rest, hlt⟩)) :
    ∃ taken u, IsFilter Inner taken filter ∧ ts = taken ++ u :: rest ∧
      u.value = .symbol .rightParen ∧ u.extent = extent := by
  unfold methodFilter at h
  split at h
  · split at h
    · cases h
    · rename_i f
      obtain ⟨R, hR, -⟩ := hinside f rfl
      cases h
      exact ⟨[], _, .empty hR, rfl, rfl, rfl⟩
  · obtain ⟨⟨⟨e, extent'⟩, ⟨rest', h'⟩⟩, hread, h⟩ := bind_eq_ok.1 h
    cases h
    obtain ⟨R, taken, u, hR, he, rfl, hu, rfl⟩ := bracketed_sound b hinside hread
    exact ⟨taken, u, .filter hR he, rfl, hu, rfl⟩

/-- Tokens that do not close the parenthesis at once are read as an expression. -/
theorem methodFilter_of_not_closing {position : Nat} {ts : Tokens}
    (h : Before (fun t => t ≠ .symbol .rightParen) ts) :
    methodFilter b inside position ts = (do
      let ((e, extent), rest) ← bracketed b inside position .rightParen .closingParen ts
      .ok ((some e, extent), rest)) := by
  unfold methodFilter
  split
  · exact absurd (h _ rfl) (by simp)
  · rfl

/-- No run of the production starts with a closing parenthesis. -/
def Opens (R : Production Expression) : Prop :=
  ∀ ⦃ts : Tokens⦄ ⦃e : Expression⦄, R ts e →
    ∃ t r, ts = t :: r ∧ t.value ≠ .symbol .rightParen

theorem methodFilter_complete (hinside : InsideComplete inside Inner)
    (hopens : ∀ R, Inner = some R → Opens R) {ts : Tokens} {filter : Option Expression}
    (h : IsFilter Inner ts filter) {u : Located Token} (hu : u.value = .symbol .rightParen)
    (position : Nat) (rest : Tokens) :
    ∃ hlt, methodFilter b inside position (ts ++ u :: rest)
      = .ok ((filter, u.extent), ⟨rest, hlt⟩) := by
  cases h with
  | empty hR =>
    obtain ⟨f, rfl, -⟩ := hinside _ hR
    obtain ⟨_, extent⟩ := u
    cases hu
    exact ⟨by simp, rfl⟩
  | @filter R ts e hR he =>
    obtain ⟨hlt, hread⟩ := bracketed_complete b hinside hR he hu rfl position .closingParen rest
    refine ⟨hlt, ?_⟩
    -- The filter does not start with the parenthesis that would close it at once.
    obtain ⟨t, r, rfl, ht⟩ := hopens R hR he
    have hafter : Before (fun t => t ≠ .symbol .rightParen) (t :: r ++ u :: rest) :=
      Before.cons (by simpa using ht)
    rw [methodFilter_of_not_closing b hafter]
    exact bind_eq_ok.2 ⟨_, hread, rfl⟩

/-- What stands behind a path: a comparison or an existence test. -/
def IsBehindPath (Inner : Option (Production Expression)) (p : Path) : Production Expression :=
  fun ts e => IsComparison (.path p) ts e ∨ IsExistence Inner p ts e

theorem behindPath_sound (hinside : InsideSound inside Inner) (p : Path) :
    Sound (behindPath b inside p) (IsBehindPath Inner p) := by
  intro ts e rest hlt h
  unfold behindPath at h
  split at h
  · rename_i paren r
    split at h
    · obtain ⟨taken, htaken, hcomparison⟩ := comparison_sound b _ h
      exact ⟨taken, htaken, .inl hcomparison⟩
    · rename_i test htest
      split at h
      · cases h
      · rename_i navigation hparent
        obtain ⟨⟨⟨filter, closing⟩, ⟨rest', h'⟩⟩, hread, h⟩ := bind_eq_ok.1 h
        cases h
        obtain ⟨taken, u, hfilter, rfl, hu, rfl⟩ := methodFilter_sound b hinside hread
        exact ⟨⟨.symbol .leftParen, paren⟩ :: (taken ++ [u]), by simp,
          .inr (.method htest hparent rfl hfilter hu)⟩
  · cases h
    exact ⟨[_], rfl, .inr (.present rfl)⟩
  · rename_i extent extent' extent'' r
    obtain ⟨⟨⟨e, closing⟩, ⟨rest', h'⟩⟩, hread, h⟩ := bind_eq_ok.1 h
    cases h
    obtain ⟨R, taken, w, hR, he, rfl, hw, rfl⟩ := bracketed_sound b hinside hread
    exact ⟨⟨.keyword .notWord, extent⟩ :: ⟨.identifier "exists", extent'⟩ ::
      ⟨.symbol .leftBrace, extent''⟩ :: (taken ++ [w]), by simp,
      .inr (.absentWith hR rfl rfl rfl he hw)⟩
  · cases h
    exact ⟨[_, _], rfl, .inr (.absent rfl rfl)⟩
  · obtain ⟨taken, htaken, hcomparison⟩ := comparison_sound b _ h
    exact ⟨taken, htaken, .inl hcomparison⟩

/-- Whether tokens behind a path start an existence test. -/
def StartsExistence (ts : Tokens) : Prop :=
  (∃ t r, ts = t :: r ∧ (t.value = .symbol .leftParen ∨ t.value = .identifier "exists")) ∨
    ∃ t u r, ts = t :: u :: r ∧ t.value = .keyword .notWord ∧ u.value = .identifier "exists"

theorem behindPath_of_comparison {p : Path} {ts : Tokens} (h : ¬StartsExistence ts) :
    behindPath b inside p ts = comparison b (.path p) ts := by
  unfold behindPath
  split
  · exact absurd (.inl ⟨_, _, rfl, .inl rfl⟩) h
  · exact absurd (.inl ⟨_, _, rfl, .inr rfl⟩) h
  · exact absurd (.inr ⟨_, _, _, rfl, rfl, rfl⟩) h
  · exact absurd (.inr ⟨_, _, _, rfl, rfl, rfl⟩) h
  · rfl

/-- No comparison starts like an existence test. -/
theorem not_startsExistence_comparison {operand : Term} {ts : Tokens} {e : Expression}
    (h : IsComparison operand ts e) (rest : Tokens) : ¬StartsExistence (ts ++ rest) := by
  cases h with
  | unary h =>
    cases h with
    | isNull ht hu =>
      rintro (⟨_, _, heq, h | h⟩ | ⟨_, _, _, heq, -, h⟩) <;> cases heq
      · exact nomatch ht.symm.trans h
      · exact nomatch ht.symm.trans h
      · exact nomatch hu.symm.trans h
    | isNotNull ht hu =>
      rintro (⟨_, _, heq, h | h⟩ | ⟨_, _, _, heq, -, h⟩) <;> cases heq
      · exact nomatch ht.symm.trans h
      · exact nomatch ht.symm.trans h
      · exact nomatch hu.symm.trans h
    | equalsEdgePoint ht =>
      rintro (⟨_, _, heq, h | h⟩ | ⟨_, _, _, heq, h, -⟩) <;> cases heq
      · exact nomatch ht.symm.trans h
      · exact absurd (ht.symm.trans h) (by decide)
      · exact nomatch ht.symm.trans h
  | binary hcomparator hparameter =>
    rw [List.append_assoc]
    cases hcomparator with
    | plain hc =>
      rintro (⟨_, _, heq, h | h⟩ | ⟨_, _, _, heq, h, -⟩) <;>
        obtain ⟨rfl, -⟩ := List.cons.inj heq <;> rw [h] at hc <;> cases hc
    | negated before hc =>
      rintro (⟨_, _, heq, h | h⟩ | ⟨_, _, _, heq, -, h⟩) <;> cases heq
      · exact nomatch before.symm.trans h
      · exact nomatch before.symm.trans h
      · rw [h] at hc
        cases hc

/-- Existence tests are told apart by their first tokens. One without a filter is read in front of
anything but the brace of a filter. -/
theorem existence_complete (hinside : InsideComplete inside Inner)
    (hopens : ∀ R, Inner = some R → Opens R) (p : Path) :
    Complete (fun t => t ≠ .symbol .leftBrace) (behindPath b inside p) (IsExistence Inner p) := by
  intro ts e rest h hrest
  cases h with
  | @method t u ts navigation test filter htest hparent opening hfilter closing =>
    obtain ⟨_, extent⟩ := t
    cases opening
    obtain ⟨hlt, hread⟩ := methodFilter_complete b hinside hopens hfilter closing
      p.last.extent.start rest
    show ∃ hlt, behindPath b inside p (⟨.symbol .leftParen, extent⟩ :: (ts ++ [u] ++ rest))
      = .ok (_, ⟨rest, hlt⟩)
    rw [List.append_assoc, List.singleton_append]
    refine ⟨by simp only [List.length_cons]; omega, ?_⟩
    rw [behindPath, htest]
    dsimp only
    rw [hparent]
    exact bind_eq_ok.2 ⟨_, hread, rfl⟩
  | @present t ht =>
    obtain ⟨_, extent⟩ := t
    cases ht
    exact ⟨by simp, rfl⟩
  | @absent t u ht hu =>
    obtain ⟨_, extent⟩ := t
    obtain ⟨_, extent'⟩ := u
    cases ht
    cases hu
    refine ⟨by simp only [List.length_append, List.length_cons]; omega, ?_⟩
    -- The reader looks for a brace behind `exists` before it takes the test to be bare.
    cases rest with
    | nil => rfl
    | cons v r =>
      obtain ⟨token, extent''⟩ := v
      cases token with
      | symbol s =>
        cases s with
        | leftBrace => exact absurd (hrest _ rfl) (by simp)
        | _ => rfl
      | _ => rfl
  | @absentWith R t u v w ts e hR ht hu opening he closing =>
    obtain ⟨_, extent⟩ := t
    obtain ⟨_, extent'⟩ := u
    obtain ⟨_, extent''⟩ := v
    cases ht
    cases hu
    cases opening
    obtain ⟨hlt, hread⟩ := bracketed_complete b hinside hR he closing rfl extent'.stop
      .closingBrace rest
    show ∃ hlt, behindPath b inside p (⟨.keyword .notWord, extent⟩ ::
      ⟨.identifier "exists", extent'⟩ :: ⟨.symbol .leftBrace, extent''⟩ :: (ts ++ [w] ++ rest))
        = .ok (_, ⟨rest, hlt⟩)
    rw [List.append_assoc, List.singleton_append]
    refine ⟨by simp only [List.length_cons]; omega, ?_⟩
    rw [behindPath]
    exact bind_eq_ok.2 ⟨_, hread, rfl⟩

theorem behindPath_complete (hinside : InsideComplete inside Inner)
    (hopens : ∀ R, Inner = some R → Opens R) (p : Path) :
    Complete (fun t => t ≠ .symbol .leftBrace) (behindPath b inside p) (IsBehindPath Inner p) := by
  intro ts e rest h hrest
  rcases h with h | h
  · have hany : Before anyToken rest := fun _ _ => rfl
    obtain ⟨hlt, hread⟩ := comparison_complete b _ h hany
    refine ⟨hlt, ?_⟩
    rw [behindPath_of_comparison b (not_startsExistence_comparison h rest)]
    exact hread
  · exact existence_complete b hinside hopens p h hrest

theorem leaf_sound (hinside : InsideSound inside Inner) (levels : Nat) :
    Sound (leaf b levels inside) (IsLeaf levels Inner) := by
  intro ts e rest hlt h
  unfold leaf at h
  split at h
  · simp only [bind_eq_ok] at h
    obtain ⟨⟨operand, ⟨s, hs⟩⟩, hoperand, ⟨e, ⟨rest', h'⟩⟩, he, h⟩ := h
    cases h
    obtain ⟨taken, htaken, hterm⟩ := term_sound b levels hoperand
    obtain ⟨taken', rfl, hcomparison⟩ := comparison_sound b operand he
    exact ⟨taken ++ taken', by simp [htaken], .comparison hterm hcomparison⟩
  · simp only [bind_eq_ok] at h
    obtain ⟨⟨p, ⟨s, hs⟩⟩, hp, ⟨e, ⟨rest', h'⟩⟩, he, h⟩ := h
    cases h
    obtain ⟨taken, rfl, hpath⟩ := path_sound b hp
    obtain ⟨taken', rfl, hbehind⟩ := behindPath_sound b hinside p he
    refine ⟨taken ++ taken', by simp, ?_⟩
    rcases hbehind with hcomparison | hexistence
    · exact .comparison (.path hpath) hcomparison
    · exact .existence hpath hexistence

/-- Tokens in front of which no function is called start a path. -/
theorem leaf_of_not_call {levels : Nat} {ts : Tokens}
    (hcall : ∀ name extent extent' r,
      ts ≠ ⟨.identifier name, extent⟩ :: ⟨.symbol .leftParen, extent'⟩ :: r) :
    leaf b levels inside ts = (do
      let (p, ⟨s, h⟩) ← path b ts
      let (e, ⟨rest, h'⟩) ← behindPath b inside p s
      .ok (e, ⟨rest, Nat.lt_trans h' h⟩)) := by
  unfold leaf
  split
  · exact absurd rfl (hcall _ _ _ _)
  · rfl

/-- Behind a term and in front of its operator there is no dot. -/
theorem before_comparison {operand : Term} {ts : Tokens} {e : Expression}
    (h : IsComparison operand ts e) (rest : Tokens) :
    Before (fun t => t ≠ .symbol .dot) (ts ++ rest) := by
  cases h with
  | unary h =>
    cases h with
    | isNull ht _ => exact Before.cons (by rw [ht]; rfl)
    | isNotNull ht _ _ => exact Before.cons (by rw [ht]; rfl)
    | equalsEdgePoint ht => exact Before.cons (by rw [ht]; rfl)
  | binary hcomparator hparameter =>
    cases hcomparator with
    | negated before _ => exact Before.cons (by rw [before]; rfl)
    | plain hc =>
      refine Before.cons (decide_eq_true fun h => ?_)
      rw [h] at hc
      cases hc

theorem before_existence {p : Path} {ts : Tokens} {e : Expression} (h : IsExistence Inner p ts e)
    (rest : Tokens) : Before (fun t => t ≠ .symbol .dot) (ts ++ rest) := by
  cases h with
  | method _ _ opening _ _ => exact Before.cons (by rw [opening]; rfl)
  | present ht => exact Before.cons (by rw [ht]; rfl)
  | absent ht _ => exact Before.cons (by rw [ht]; rfl)
  | absentWith _ ht _ _ _ _ => exact Before.cons (by rw [ht]; rfl)

theorem leaf_path_complete (hinside : InsideComplete inside Inner)
    (hopens : ∀ R, Inner = some R → Opens R) (levels : Nat) {ts us rest : Tokens} {p : Path}
    {e : Expression} (hp : IsPath ts p) (h : IsBehindPath Inner p us e)
    (hrest : Before (fun t => t ≠ .symbol .leftBrace) rest) :
    ∃ hlt, leaf b levels inside (ts ++ us ++ rest) = .ok (e, ⟨rest, hlt⟩) := by
  have hdot : Before (fun t => t ≠ .symbol .dot) (us ++ rest) := by
    rcases h with h | h
    · exact before_comparison h rest
    · exact before_existence h rest
  obtain ⟨hlt, hread⟩ := path_complete b hp hdot
  obtain ⟨hlt', hread'⟩ := behindPath_complete b hinside hopens p h hrest
  rw [List.append_assoc, leaf_of_not_call b (not_call_of_isPath hp (us ++ rest))]
  refine ⟨Nat.lt_trans hlt' hlt, ?_⟩
  simp only [bind_eq_ok]
  exact ⟨_, hread, _, hread', rfl⟩

theorem leaf_complete (hinside : InsideComplete inside Inner)
    (hopens : ∀ R, Inner = some R → Opens R) (levels : Nat) :
    Complete (fun t => t ≠ .symbol .leftBrace) (leaf b levels inside) (IsLeaf levels Inner) := by
  intro ts e rest h hrest
  cases h with
  | existence hp h => exact leaf_path_complete b hinside hopens levels hp (.inr h) hrest
  | @comparison ts us operand e hoperand h =>
    cases hoperand with
    | path hp => exact leaf_path_complete b hinside hopens levels hp (.inl h) hrest
    | @call levels t u v ts vs name argument integers ht opening hargument hintegers closing =>
      have hany : Before anyToken rest := fun _ _ => rfl
      obtain ⟨hlt, hread⟩ := term_complete b (levels + 1)
        (.call ht opening hargument hintegers closing) (before_comparison h rest)
      obtain ⟨hlt', hread'⟩ := comparison_complete b _ h hany
      obtain ⟨_, extent⟩ := t
      obtain ⟨_, extent'⟩ := u
      cases ht
      cases opening
      rw [List.append_assoc]
      refine ⟨Nat.lt_trans hlt' hlt, ?_⟩
      show leaf b (levels + 1) inside (_ :: _ :: (ts ++ (vs ++ [v]) ++ (us ++ rest))) = _
      rw [leaf]
      simp only [bind_eq_ok]
      exact ⟨_, hread, _, hread', rfl⟩

/-! ## Expressions -/

theorem primary_sound (hinside : InsideSound inside Inner) (levels : Nat) :
    Sound (primary b levels inside) (IsPrimary levels Inner) := by
  intro ts e rest hlt h
  unfold primary at h
  split at h
  · cases h
    exact ⟨[_], rfl, .all rfl⟩
  · cases h
    exact ⟨[_], rfl, .none rfl⟩
  · rename_i extent r
    obtain ⟨⟨⟨inner, closing⟩, ⟨rest', h'⟩⟩, hread, h⟩ := bind_eq_ok.1 h
    cases h
    obtain ⟨R, taken, u, hR, he, rfl, hu, rfl⟩ := bracketed_sound b hinside hread
    exact ⟨⟨.symbol .leftParen, extent⟩ :: (taken ++ [u]), by simp, .group hR rfl he hu⟩
  · obtain ⟨taken, htaken, hleaf⟩ := leaf_sound b hinside levels h
    exact ⟨taken, htaken, .leaf hleaf⟩
  · obtain ⟨taken, htaken, hleaf⟩ := leaf_sound b hinside levels h
    exact ⟨taken, htaken, .leaf hleaf⟩
  · cases h

/-- A term starts with `this` or a name. -/
theorem exists_root_of_isTerm {levels : Nat} {ts : Tokens} {t : Term} (h : IsTerm levels ts t) :
    ∃ u r, ts = u :: r ∧ (u.value = .keyword .thisWord ∨ ∃ name, u.value = .identifier name) := by
  cases h with
  | call ht _ _ _ _ => exact ⟨_, _, rfl, .inr ⟨_, ht⟩⟩
  | path hp =>
    obtain ⟨u, _, _, rfl, -, hroot⟩ := exists_dot_of_isPath hp
    refine ⟨u, _, rfl, ?_⟩
    cases hvalue : u.value with
    | keyword k =>
      rw [hvalue] at hroot
      cases k with
      | thisWord => exact .inl rfl
      | _ => cases hroot
    | identifier name => exact .inr ⟨name, rfl⟩
    | _ =>
      rw [hvalue] at hroot
      cases hroot

theorem exists_root_of_isLeaf {levels : Nat} {ts : Tokens} {e : Expression}
    (h : IsLeaf levels Inner ts e) :
    ∃ u r, ts = u :: r ∧ (u.value = .keyword .thisWord ∨ ∃ name, u.value = .identifier name) := by
  cases h with
  | comparison hoperand _ =>
    obtain ⟨u, r, rfl, hu⟩ := exists_root_of_isTerm hoperand
    exact ⟨u, _, rfl, hu⟩
  | existence hp _ =>
    obtain ⟨u, r, rfl, hu⟩ := exists_root_of_isTerm (.path hp : IsTerm 0 _ _)
    exact ⟨u, _, rfl, hu⟩

theorem primary_complete (hinside : InsideComplete inside Inner)
    (hopens : ∀ R, Inner = some R → Opens R) (levels : Nat) :
    Complete followsPrimary (primary b levels inside) (IsPrimary levels Inner) := by
  intro ts e rest h hrest
  cases h with
  | @all t ht =>
    obtain ⟨_, extent⟩ := t
    cases ht
    exact ⟨by simp, rfl⟩
  | @none t ht =>
    obtain ⟨_, extent⟩ := t
    cases ht
    exact ⟨by simp, rfl⟩
  | @group R t u ts e hR opening he closing =>
    obtain ⟨_, extent⟩ := t
    cases opening
    obtain ⟨hlt, hread⟩ := bracketed_complete b hinside hR he closing rfl extent.start
      .closingParen rest
    show ∃ hlt, primary b levels inside (⟨.symbol .leftParen, extent⟩ :: (ts ++ [u] ++ rest))
      = .ok (_, ⟨rest, hlt⟩)
    rw [List.append_assoc, List.singleton_append]
    refine ⟨by simp only [List.length_cons]; omega, ?_⟩
    rw [primary]
    exact bind_eq_ok.2 ⟨_, hread, rfl⟩
  | leaf h =>
    have hbrace : Before (fun t => t ≠ .symbol .leftBrace) rest := by
      refine hrest.mono ?_
      intro t ht
      simp only [ne_eq, decide_eq_true_eq]
      rintro rfl
      cases ht
    obtain ⟨hlt, hread⟩ := leaf_complete b hinside hopens levels h hbrace
    refine ⟨hlt, ?_⟩
    -- The first token sends the reader to a leaf, whether it is `this` or a name.
    obtain ⟨⟨_, extent⟩, r, rfl, hu | ⟨name, hu⟩⟩ := exists_root_of_isLeaf h
    · cases hu
      exact hread
    · cases hu
      exact hread

theorem conjunction_sound (hinside : InsideSound inside Inner) (levels : Nat) :
    Sound (conjunction b levels inside) (IsConjunction levels Inner) := by
  intro ts e rest hlt h
  unfold conjunction at h
  obtain ⟨⟨⟨first, others⟩, ⟨rest', h'⟩⟩, hchain, h⟩ := bind_eq_ok.1 h
  cases h
  obtain ⟨taken, htaken, hchain⟩ := chain_sound (primary_sound b hinside levels) hchain
  exact ⟨taken, htaken, first, others, hchain, rfl⟩

theorem conjunction_complete (hinside : InsideComplete inside Inner)
    (hopens : ∀ R, Inner = some R → Opens R) (levels : Nat) :
    Complete followsConjunction (conjunction b levels inside) (IsConjunction levels Inner) := by
  rintro ts e rest ⟨first, others, hchain, rfl⟩ hrest
  have hafter : Before (fun t => followsPrimary t && t ≠ .symbol .ampersand) rest := by
    refine hrest.mono ?_
    intro t ht
    simp only [followsPrimary, ht, Bool.or_true, Bool.true_and, ne_eq, decide_eq_true_eq]
    rintro rfl
    cases ht
  obtain ⟨hlt, hread⟩ := chain_complete (primary_complete b hinside hopens levels) rfl hchain hafter
  refine ⟨hlt, ?_⟩
  unfold conjunction
  exact bind_eq_ok.2 ⟨_, hread, rfl⟩

theorem disjunction_sound (hinside : InsideSound inside Inner) (levels : Nat) :
    Sound (disjunction b levels inside) (IsDisjunction levels Inner) := by
  intro ts e rest hlt h
  unfold disjunction at h
  obtain ⟨⟨⟨first, others⟩, ⟨rest', h'⟩⟩, hchain, h⟩ := bind_eq_ok.1 h
  cases h
  obtain ⟨taken, htaken, hchain⟩ := chain_sound (conjunction_sound b hinside levels) hchain
  exact ⟨taken, htaken, first, others, hchain, rfl⟩

theorem disjunction_complete (hinside : InsideComplete inside Inner)
    (hopens : ∀ R, Inner = some R → Opens R) (levels : Nat) :
    Complete followsExpression (disjunction b levels inside) (IsDisjunction levels Inner) := by
  rintro ts e rest ⟨first, others, hchain, rfl⟩ hrest
  have hafter : Before (fun t => followsConjunction t && t ≠ .symbol .pipe) rest := by
    refine hrest.mono ?_
    intro t ht
    simp only [followsConjunction, ht, Bool.or_true, Bool.true_and, ne_eq, decide_eq_true_eq]
    rintro rfl
    cases ht
  obtain ⟨hlt, hread⟩ :=
    chain_complete (conjunction_complete b hinside hopens levels) rfl hchain hafter
  refine ⟨hlt, ?_⟩
  unfold disjunction
  exact bind_eq_ok.2 ⟨_, hread, rfl⟩

end

/-- What the parser reads as an expression is derived by the grammar. -/
theorem expression_sound (levels : Nat) : Sound (expression b levels) (IsExpression levels) := by
  -- With no level left nothing is read inside brackets; else what has one level less is.
  induction levels with
  | zero =>
    refine disjunction_sound b ?_ 0
    intro f h
    cases h
  | succ levels ih =>
    refine disjunction_sound b (fun f h => ?_) (levels + 1)
    cases h
    exact ⟨_, rfl, ih⟩

theorem exists_first_of_chain {α : Type} {separator : Symbol} {R : Production α} {ts : Tokens}
    {a : α × List α} (h : Chain separator R ts a) : ∃ us vs, ts = us ++ vs ∧ R us a.1 := by
  cases h with
  | one item => exact ⟨_, [], (List.append_nil _).symm, item⟩
  | more item _ _ => exact ⟨_, _, rfl, item⟩

theorem opens_primary {levels : Nat} {Inner : Option (Production Expression)} :
    Opens (IsPrimary levels Inner) := by
  intro ts e h
  cases h with
  | all ht => exact ⟨_, _, rfl, by rw [ht]; simp⟩
  | none ht => exact ⟨_, _, rfl, by rw [ht]; simp⟩
  | group _ opening _ _ => exact ⟨_, _, rfl, by rw [opening]; simp⟩
  | leaf h =>
    obtain ⟨u, r, rfl, hu | ⟨name, hu⟩⟩ := exists_root_of_isLeaf h
    · exact ⟨u, r, rfl, by rw [hu]; simp⟩
    · exact ⟨u, r, rfl, by rw [hu]; simp⟩

theorem opens_disjunction {levels : Nat} {Inner : Option (Production Expression)} :
    Opens (IsDisjunction levels Inner) := by
  rintro ts e ⟨first, others, hchain, rfl⟩
  obtain ⟨us, vs, rfl, first', others', hchain', heq⟩ := exists_first_of_chain hchain
  obtain ⟨us', vs', rfl, hprimary⟩ := exists_first_of_chain hchain'
  obtain ⟨t, r, rfl, ht⟩ := opens_primary hprimary
  exact ⟨t, _, rfl, ht⟩

theorem opens_expression (levels : Nat) : Opens (IsExpression levels) := by
  cases levels with
  | zero => exact opens_disjunction
  | succ levels => exact opens_disjunction

/-- What the grammar derives is read by the parser as the expression that was derived. -/
theorem expression_complete (levels : Nat) :
    Complete followsExpression (expression b levels) (IsExpression levels) := by
  induction levels with
  | zero =>
    have hinside : InsideComplete none none := fun R h => by cases h
    exact disjunction_complete b hinside (fun R h => by cases h) 0
  | succ levels ih =>
    have hinside : InsideComplete (some (expression b levels)) (some (IsExpression levels)) := by
      intro R h
      cases h
      exact ⟨_, rfl, ih⟩
    refine disjunction_complete b hinside (fun R h => ?_) (levels + 1)
    cases h
    exact opens_expression levels

/-- The tokens of a text are an expression as far as the grammar derives one. -/
theorem ofTokens_iff {ts : Tokens} {e : Expression} :
    Expression.ofTokens b ts = .ok e ↔ IsExpression b.maxDepth ts e := by
  unfold Expression.ofTokens
  constructor
  · intro h
    obtain ⟨⟨e', ⟨rest, hlt⟩⟩, hread, h⟩ := bind_eq_ok.1 h
    dsimp only at h
    split at h
    · cases h
      obtain ⟨taken, rfl, hderived⟩ := expression_sound b _ hread
      rw [List.append_nil]
      exact hderived
    · cases h
  · intro h
    have hnil : Before followsExpression [] := fun t ht => nomatch ht
    have hcomplete := expression_complete b b.maxDepth h hnil
    rw [List.append_nil] at hcomplete
    obtain ⟨hlt, hread⟩ := hcomplete
    exact bind_eq_ok.2 ⟨_, hread, rfl⟩

end Criteria.Language
