import Criteria.Proofs.Language.Derivation
import Criteria.Proofs.Schema.Resolution

/-! # Readers and productions

What a reader of the parser takes from the tokens is derived by the production it reads (`Sound`),
and a run that a production derives is read again in front of whatever cannot go on with it
(`Complete`). Here this is shown of chains and of everything below a leaf: literals, operators,
paths and terms.
-/

set_option autoImplicit false

namespace Criteria.Language

open Number Grammar Criteria.Language.Derivation

variable (b : Bounds)

/-! ## Soundness and completeness -/

section

variable {α : Type}

/-- What the reader takes is derived by the production. -/
def Sound (f : (ts : Tokens) → Reading α ts) (R : Production α) : Prop :=
  ∀ ⦃ts : Tokens⦄ ⦃a : α⦄ ⦃rest : Tokens⦄ ⦃h : rest.length < ts.length⦄,
    f ts = .ok (a, ⟨rest, h⟩) → ∃ taken, ts = taken ++ rest ∧ R taken a

/-- The first of the tokens is of the given sort, if there is one. -/
def Before (sort : Token → Bool) (rest : Tokens) : Prop :=
  ∀ t ∈ rest.head?, sort t.value = true

/-- A run that the production derives is read in front of tokens of the given sort. -/
def Complete (sort : Token → Bool) (f : (ts : Tokens) → Reading α ts) (R : Production α) : Prop :=
  ∀ ⦃ts : Tokens⦄ ⦃a : α⦄ ⦃rest : Tokens⦄, R ts a → Before sort rest →
    ∃ h, f (ts ++ rest) = .ok (a, ⟨rest, h⟩)

theorem Before.cons {sort : Token → Bool} {t : Located Token} {rest : Tokens}
    (h : sort t.value = true) : Before sort (t :: rest) := by
  intro u hu
  cases hu
  exact h

theorem Before.mono {sort sort' : Token → Bool} (hsort : ∀ t, sort t = true → sort' t = true)
    {rest : Tokens} (h : Before sort rest) : Before sort' rest :=
  fun t ht => hsort _ (h t ht)

end

theorem require_sound {token : Token} {expected : Expected} {ts rest : Tokens} {extent : Extent}
    {hlt : rest.length < ts.length}
    (h : require b token expected ts = .ok (extent, ⟨rest, hlt⟩)) :
    ∃ t, ts = t :: rest ∧ t.value = token ∧ t.extent = extent := by
  cases ts with
  | nil => cases h
  | cons t r =>
    rw [require] at h
    split at h
    · rename_i ht
      cases h
      exact ⟨t, rfl, ht, rfl⟩
    · cases h

theorem require_complete {token : Token} {expected : Expected} {t : Located Token} {rest : Tokens}
    (ht : t.value = token) :
    require b token expected (t :: rest) = .ok (t.extent, .tail t rest) := by
  rw [require, if_pos ht]

/-! ## Chains -/

section

variable {α : Type} {separator : Symbol} {item : (ts : Tokens) → Reading α ts} {R : Production α}

theorem chain_sound (h : Sound item R) : Sound (chain separator item) (Chain separator R) := by
  intro ts a rest hless hchain
  -- The induction is on the number of tokens: what an item leaves is shorter, but no part of `ts`.
  obtain ⟨n, hn⟩ : ∃ n, ts.length = n := ⟨_, rfl⟩
  induction n using Nat.strongRecOn generalizing ts a with
  | _ n ih =>
    rw [chain, bind_eq_ok] at hchain
    obtain ⟨⟨first, ⟨behind, hlt⟩⟩, hfirst, hchain⟩ := hchain
    obtain ⟨taken, htaken, hR⟩ := h hfirst
    cases behind with
    | nil =>
      cases hchain
      exact ⟨taken, htaken, .one hR⟩
    | cons t r =>
      dsimp only at hchain
      split at hchain
      · rename_i hseparator
        rw [bind_eq_ok] at hchain
        obtain ⟨⟨⟨second, others⟩, ⟨s, hs⟩⟩, hrest, hchain⟩ := hchain
        cases hchain
        simp only [List.length_cons] at hlt
        obtain ⟨taken', htaken', hR'⟩ := ih r.length (by omega) hrest rfl
        exact ⟨taken ++ t :: taken', by simp [htaken, htaken'], .more hR hseparator hR'⟩
      · cases hchain
        exact ⟨taken, htaken, .one hR⟩

/-- A chain is read in front of what can follow its last item and is not the separator. -/
theorem chain_complete {sort : Token → Bool} (h : Complete sort item R)
    (hseparator : sort (.symbol separator) = true) :
    Complete (fun t => sort t && t ≠ .symbol separator) (chain separator item)
      (Chain separator R) := by
  intro ts a rest hchain hrest
  induction hchain with
  | @one ts a hitem =>
    obtain ⟨hlt, hread⟩ := h hitem (hrest.mono fun t ht => (Bool.and_eq_true_iff.1 ht).1)
    refine ⟨hlt, ?_⟩
    rw [chain, bind_eq_ok]
    refine ⟨_, hread, ?_⟩
    cases rest with
    | nil => rfl
    | cons t r =>
      have hne := (Bool.and_eq_true_iff.1 (hrest t rfl)).2
      dsimp only
      rw [if_neg (by simpa using hne)]
  | @more ts us a second others t hitem hbetween _ ih =>
    obtain ⟨hlt', hread'⟩ := ih
    -- Behind this item stands the separator, which is of the sort that may follow an item.
    have hafter : Before sort (t :: (us ++ rest)) := Before.cons (hbetween ▸ hseparator)
    obtain ⟨hlt, hread⟩ := h hitem hafter
    have happend : ts ++ t :: us ++ rest = ts ++ t :: (us ++ rest) := by simp
    rw [happend]
    refine ⟨by simp only [List.length_append, List.length_cons] at hlt' ⊢; omega, ?_⟩
    rw [chain, bind_eq_ok]
    refine ⟨_, hread, ?_⟩
    dsimp only
    rw [if_pos hbetween, bind_eq_ok]
    exact ⟨_, hread', rfl⟩

end

/-! ## Literals and operators -/

/-- Any token. -/
def anyToken (_ : Token) : Bool := true

theorem literal_sound : Sound (literal b) IsLiteral := by
  intro ts a rest hlt h
  cases ts with
  | nil => cases h
  | cons t r =>
    rw [literal] at h
    split at h
    · rename_i l hl
      cases h
      exact ⟨[t], rfl, .mk hl⟩
    · cases h

theorem literal_complete : Complete anyToken (literal b) IsLiteral := by
  rintro ts a rest ⟨h⟩ -
  rename_i t l
  rw [List.singleton_append]
  refine ⟨by simp, ?_⟩
  rw [literal, h]
  rfl

theorem parameter_sound : Sound (parameter b) IsParameter := by
  intro ts a rest hlt h
  cases ts with
  | nil => cases h
  | cons t r =>
    rw [parameter] at h
    split at h
    · rename_i hopening
      simp only [bind_eq_ok] at h
      obtain ⟨⟨⟨first, others⟩, ⟨s, hs⟩⟩, hitems, ⟨closing, ⟨rest', h'⟩⟩, hclosing, h⟩ := h
      cases h
      obtain ⟨taken, htaken, hchain⟩ := chain_sound (literal_sound b) hitems
      obtain ⟨u, rfl, hvalue, rfl⟩ := require_sound b hclosing
      exact ⟨t :: (taken ++ [u]), by simp [htaken], .list hopening hchain hvalue⟩
    · obtain ⟨taken, htaken, hliteral⟩ := literal_sound b h
      exact ⟨taken, htaken, .literal hliteral⟩

theorem parameter_complete : Complete anyToken (parameter b) IsParameter := by
  intro ts a rest h hrest
  cases h with
  | literal h =>
    obtain ⟨hlt, hread⟩ := literal_complete b h hrest
    obtain ⟨h⟩ := h
    rename_i t l
    rw [List.singleton_append] at *
    refine ⟨hlt, ?_⟩
    -- No literal is a parenthesis, so no list is read.
    have hne : t.value ≠ .symbol .leftParen := by
      intro heq
      rw [heq] at h
      cases h
    rw [parameter, if_neg hne]
    exact hread
  | @list ts t u first others opening items closing =>
    have hafter : Before (fun t => anyToken t && t ≠ .symbol .comma) (u :: rest) :=
      Before.cons (by rw [closing]; rfl)
    obtain ⟨hlt, hread⟩ := chain_complete (literal_complete b) rfl items hafter
    have happend : t :: (ts ++ [u]) ++ rest = t :: (ts ++ u :: rest) := by simp
    rw [happend]
    refine ⟨by simp only [List.length_append, List.length_cons]; omega, ?_⟩
    rw [parameter, if_pos opening]
    simp only [bind_eq_ok]
    exact ⟨_, hread, _, require_complete b closing, rfl⟩

theorem comparator_sound : Sound (comparator b) IsComparator := by
  intro ts a rest hlt h
  cases ts with
  | nil => cases h
  | cons t r =>
    rw [comparator.eq_def] at h
    dsimp only at h
    split at h
    · rename_i c hc
      cases h
      exact ⟨[t], rfl, .plain hc⟩
    · split at h
      · rename_i hnot
        cases r with
        | nil => cases h
        | cons u s =>
          dsimp only at h
          split at h
          · rename_i c hc
            cases h
            exact ⟨[t, u], rfl, .negated hnot hc⟩
          · cases h
      · cases h

theorem comparator_complete : Complete anyToken (comparator b) IsComparator := by
  intro ts a rest h _
  cases h with
  | @plain t c h =>
    rw [List.singleton_append]
    refine ⟨by simp, ?_⟩
    rw [comparator.eq_def]
    dsimp only
    rw [h]
    rfl
  | @negated t u c before h =>
    -- The word `not` alone is no operator, so the token behind it is looked at.
    have hplain : comparatorOf? t.value = none := by rw [before]; rfl
    show ∃ hlt, comparator b (t :: u :: rest) = .ok (a, ⟨rest, hlt⟩)
    refine ⟨by simp only [List.length_cons]; omega, ?_⟩
    rw [comparator.eq_def]
    dsimp only
    rw [hplain]
    dsimp only
    rw [if_pos before, h]

theorem unaryComparator?_sound {ts rest : Tokens} {a : Comparator × Nat}
    {hlt : rest.length < ts.length}
    (h : unaryComparator? b ts = .ok (some (a, ⟨rest, hlt⟩))) :
    ∃ taken, ts = taken ++ rest ∧ IsUnary taken a := by
  unfold unaryComparator? at h
  split at h
  · rename_i t u r
    simp only [bind_eq_ok] at h
    obtain ⟨⟨extent, ⟨rest', h'⟩⟩, hnull, h⟩ := h
    cases h
    obtain ⟨v, rfl, hvalue, rfl⟩ := require_sound b hnull
    exact ⟨[_, _, v], rfl, .isNotNull rfl rfl hvalue⟩
  · rename_i t r _
    simp only [bind_eq_ok] at h
    obtain ⟨⟨extent, ⟨rest', h'⟩⟩, hnull, h⟩ := h
    cases h
    obtain ⟨v, rfl, hvalue, rfl⟩ := require_sound b hnull
    exact ⟨[_, v], rfl, .isNull rfl hvalue⟩
  · cases h
    exact ⟨[_], rfl, .equalsEdgePoint rfl⟩
  · cases h

theorem unaryComparator?_complete {ts : Tokens} {a : Comparator × Nat} (h : IsUnary ts a)
    (rest : Tokens) :
    ∃ hlt, unaryComparator? b (ts ++ rest) = .ok (some (a, ⟨rest, hlt⟩)) := by
  cases h with
  | @isNull t u ht hu =>
    obtain ⟨_, extent⟩ := t
    obtain ⟨_, extent'⟩ := u
    cases ht
    cases hu
    exact ⟨by simp only [List.length_append, List.length_cons]; omega, rfl⟩
  | @isNotNull t u v ht hu hv =>
    obtain ⟨_, extent⟩ := t
    obtain ⟨_, extent'⟩ := u
    obtain ⟨_, extent''⟩ := v
    cases ht
    cases hu
    cases hv
    exact ⟨by simp only [List.length_append, List.length_cons]; omega, rfl⟩
  | @equalsEdgePoint t ht =>
    obtain ⟨_, extent⟩ := t
    cases ht
    exact ⟨by simp, rfl⟩

/-- Whether a token starts an operator without parameter. -/
def startsUnary (t : Token) : Bool :=
  t = .keyword .isWord || t = .identifier "equalsEdgePoint"

theorem unaryComparator?_none {ts : Tokens} (h : Before (fun t => !startsUnary t) ts) :
    unaryComparator? b ts = .ok none := by
  unfold unaryComparator?
  split
  · exact absurd (h _ rfl) (by simp [startsUnary])
  · exact absurd (h _ rfl) (by simp [startsUnary])
  · exact absurd (h _ rfl) (by simp [startsUnary])
  · rfl

/-! ## Paths and terms -/

theorem names_sound {ts rest : Tokens} {a : List (Located String)} {hle : rest.length ≤ ts.length}
    (h : names b ts = .ok (a, ⟨rest, hle⟩)) : ∃ taken, ts = taken ++ rest ∧ AreNames taken a := by
  -- A dot is followed by a name, by another token, or by nothing; or there is no dot.
  fun_induction names b ts generalizing rest a with
  | case1 extent t r name hname ih =>
    obtain ⟨⟨others, ⟨rest', hle'⟩⟩, hnames, h⟩ := bind_eq_ok.1 h
    cases h
    obtain ⟨taken, rfl, hothers⟩ := ih hnames
    exact ⟨_ :: t :: taken, rfl, .cons rfl hname hothers⟩
  | case2 => cases h
  | case3 => cases h
  | case4 =>
    cases h
    exact ⟨[], rfl, .nil⟩

theorem names_stop {ts : Tokens} (h : Before (fun t => t ≠ .symbol .dot) ts) :
    names b ts = .ok ([], ⟨ts, Nat.le_refl _⟩) := by
  unfold names
  split
  · exact absurd (h _ rfl) (by simp)
  · exact absurd (h _ rfl) (by simp)
  · rfl

theorem names_complete {ts rest : Tokens} {a : List (Located String)} (h : AreNames ts a)
    (hrest : Before (fun t => t ≠ .symbol .dot) rest) :
    ∃ hle, names b (ts ++ rest) = .ok (a, ⟨rest, hle⟩) := by
  induction h with
  | nil => exact ⟨Nat.le_refl _, names_stop b hrest⟩
  | @cons t u ts name names before h tail ih =>
    obtain ⟨hle, hread⟩ := ih
    obtain ⟨_, extent⟩ := t
    cases before
    refine ⟨by simp only [List.cons_append, List.length_cons]; omega, ?_⟩
    show Grammar.names b (_ :: u :: (ts ++ rest)) = _
    rw [Grammar.names, h]
    exact bind_eq_ok.2 ⟨_, hread, rfl⟩

theorem path_sound : Sound (path b) IsPath := by
  intro ts a rest hlt h
  cases ts with
  | nil => cases h
  | cons t r =>
    rw [path] at h
    split at h
    · cases h
    · rename_i root hroot
      obtain ⟨⟨segments, ⟨rest', hle⟩⟩, hnames, h⟩ := bind_eq_ok.1 h
      dsimp only at h
      split at h
      · rename_i p hp
        cases h
        obtain ⟨taken, rfl, hsegments⟩ := names_sound b hnames
        exact ⟨t :: taken, rfl, .mk hroot hsegments hp⟩
      · cases h

theorem path_complete : Complete (fun t => t ≠ .symbol .dot) (path b) IsPath := by
  intro ts a rest h hrest
  obtain ⟨hroot, hnames, hp⟩ := h
  rename_i t ts root segments
  obtain ⟨hle, hread⟩ := names_complete b hnames hrest
  refine ⟨by simp only [List.cons_append, List.length_cons]; omega, ?_⟩
  show path b (t :: (ts ++ rest)) = _
  rw [path, hroot]
  refine bind_eq_ok.2 ⟨_, hread, ?_⟩
  dsimp only
  rw [hp]

theorem integers_sound {ts rest : Tokens} {a : List (Located (Word 64))}
    {hle : rest.length ≤ ts.length} (h : integers b ts = .ok (a, ⟨rest, hle⟩)) :
    ∃ taken, ts = taken ++ rest ∧ AreIntegers taken a := by
  fun_induction integers b ts generalizing rest a with
  | case1 extent n extent' r ih =>
    obtain ⟨⟨others, ⟨rest', hle'⟩⟩, hothers, h⟩ := bind_eq_ok.1 h
    cases h
    obtain ⟨taken, rfl, hintegers⟩ := ih hothers
    exact ⟨_ :: _ :: taken, rfl, .cons rfl rfl hintegers⟩
  | case2 => cases h
  | case3 =>
    cases h
    exact ⟨[], rfl, .nil⟩

theorem integers_stop {ts : Tokens} (h : Before (fun t => t ≠ .symbol .comma) ts) :
    integers b ts = .ok ([], ⟨ts, Nat.le_refl _⟩) := by
  unfold integers
  split
  · exact absurd (h _ rfl) (by simp)
  · exact absurd (h _ rfl) (by simp)
  · rfl

theorem integers_complete {ts rest : Tokens} {a : List (Located (Word 64))} (h : AreIntegers ts a)
    (hrest : Before (fun t => t ≠ .symbol .comma) rest) :
    ∃ hle, integers b (ts ++ rest) = .ok (a, ⟨rest, hle⟩) := by
  induction h with
  | nil => exact ⟨Nat.le_refl _, integers_stop b hrest⟩
  | @cons t u ts n others before h tail ih =>
    obtain ⟨hle, hread⟩ := ih
    obtain ⟨_, extent⟩ := t
    obtain ⟨_, extent'⟩ := u
    cases before
    cases h
    refine ⟨by simp only [List.cons_append, List.length_cons]; omega, ?_⟩
    show Grammar.integers b (_ :: _ :: (ts ++ rest)) = _
    rw [Grammar.integers]
    exact bind_eq_ok.2 ⟨_, hread, rfl⟩

theorem term_sound (levels : Nat) : Sound (term b levels) (IsTerm levels) := by
  intro ts a rest hlt h
  fun_induction term b levels ts generalizing rest a with
  | case1 => cases h
  | case2 levels name extent extent' r ih =>
    simp only [bind_eq_ok] at h
    obtain ⟨⟨argument, ⟨s, hs⟩⟩, hargument, ⟨others, ⟨s', hs'⟩⟩, hothers,
      ⟨closing, ⟨rest', h'⟩⟩, hclosing, h⟩ := h
    cases h
    obtain ⟨taken, rfl, hterm⟩ := ih hargument
    obtain ⟨taken', rfl, hintegers⟩ := integers_sound b hothers
    obtain ⟨v, rfl, hvalue, rfl⟩ := require_sound b hclosing
    exact ⟨⟨.identifier name, extent⟩ :: ⟨.symbol .leftParen, extent'⟩ ::
      (taken ++ (taken' ++ [v])), by simp, .call rfl rfl hterm hintegers hvalue⟩
  | case3 levels ts =>
    obtain ⟨⟨p, ⟨rest', hlt'⟩⟩, hp, h⟩ := bind_eq_ok.1 h
    cases h
    obtain ⟨taken, rfl, hpath⟩ := path_sound b hp
    exact ⟨taken, rfl, .path hpath⟩

/-- Tokens in front of which no function is called start a path. -/
theorem term_of_not_call {levels : Nat} {ts : Tokens}
    (hcall : ∀ name extent extent' r,
      ts ≠ ⟨.identifier name, extent⟩ :: ⟨.symbol .leftParen, extent'⟩ :: r) :
    term b levels ts = (do let (p, rest) ← path b ts; .ok (.path p, rest)) := by
  unfold term
  split
  · exact absurd rfl (hcall _ _ _ _)
  · exact absurd rfl (hcall _ _ _ _)
  · rfl

/-- A path starts with its root, and a dot follows. -/
theorem exists_dot_of_isPath {ts : Tokens} {p : Path} (h : IsPath ts p) :
    ∃ t u us, ts = t :: u :: us ∧ u.value = .symbol .dot ∧ (rootOf? t.value).isSome = true := by
  obtain ⟨hroot, hnames, hp⟩ := h
  cases hnames with
  | nil => cases hp
  | cons before _ _ => exact ⟨_, _, _, rfl, before, by rw [hroot]; rfl⟩

/-- A call has a parenthesis where a path has its first dot. -/
theorem not_call_of_isPath {ts : Tokens} {p : Path} (h : IsPath ts p) (rest : Tokens)
    (name : String) (extent extent' : Extent) (r : Tokens) :
    ts ++ rest ≠ ⟨.identifier name, extent⟩ :: ⟨.symbol .leftParen, extent'⟩ :: r := by
  obtain ⟨t, u, us, rfl, hdot, -⟩ := exists_dot_of_isPath h
  intro heq
  cases heq
  cases hdot

theorem term_complete (levels : Nat) :
    Complete (fun t => t ≠ .symbol .dot) (term b levels) (IsTerm levels) := by
  intro ts a rest h hrest
  induction h generalizing rest with
  | @path levels ts p h =>
    obtain ⟨hlt, hread⟩ := path_complete b h hrest
    refine ⟨hlt, ?_⟩
    rw [term_of_not_call b (not_call_of_isPath h rest)]
    exact bind_eq_ok.2 ⟨_, hread, rfl⟩
  | @call levels t u v ts us name argument integers ht opening _ hintegers closing ih =>
    obtain ⟨_, extent⟩ := t
    obtain ⟨_, extent'⟩ := u
    cases ht
    cases opening
    have hclosing : Before (fun t => t ≠ .symbol .comma) (v :: rest) :=
      Before.cons (by rw [closing]; rfl)
    obtain ⟨hle, hothers⟩ := integers_complete b hintegers hclosing
    -- The argument ends in front of a comma or the closing parenthesis, not of a dot.
    have hafter : Before (fun t => t ≠ .symbol .dot) (us ++ v :: rest) := by
      cases hintegers with
      | nil => exact Before.cons (by rw [closing]; rfl)
      | cons before _ _ => exact Before.cons (by rw [before]; rfl)
    obtain ⟨hlt, hargument⟩ := ih hafter
    show ∃ hlt, term b (levels + 1) (⟨.identifier name, extent⟩ :: ⟨.symbol .leftParen, extent'⟩ ::
      (ts ++ (us ++ [v]) ++ rest)) = .ok (_, ⟨rest, hlt⟩)
    have happend : ts ++ (us ++ [v]) ++ rest = ts ++ (us ++ v :: rest) := by simp
    rw [happend]
    refine ⟨by simp only [List.length_cons, List.length_append]; omega, ?_⟩
    rw [term]
    simp only [bind_eq_ok]
    exact ⟨_, hargument, _, hothers, _, require_complete b closing, rfl⟩

end Criteria.Language
