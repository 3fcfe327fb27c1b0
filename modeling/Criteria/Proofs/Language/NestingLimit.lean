import Criteria.Proofs.Language.Reading
import Criteria.Proofs.Runs

/-! # Reading under two limits

One text read under two limits to its nesting. Tokens are taken in the same way whatever the limit
is; a bracket that the smaller limit refuses stops the first reading, and all others leave both with
one level less.
-/

set_option autoImplicit false

namespace Criteria.Language

namespace Grammar

open Number

variable {length most : Nat} (most' : Nat)

/-! ## Parts without brackets

The limit occurs in nothing but the error of exceeding it, which these parts do not have.
-/

theorem names_eq (ts : Tokens) : names ⟨length, most⟩ ts = names ⟨length, most'⟩ ts := by
  fun_induction names ⟨length, most⟩ ts with
  | case1 extent t r name hname ih =>
    rw [names, hname]
    dsimp only
    rw [ih]
  | case2 extent t r hname =>
    rw [names, hname]
    rfl
  | case3 extent => rfl
  | case4 ts hdot hend => rw [names] <;> assumption

theorem path_eq (ts : Tokens) : path ⟨length, most⟩ ts = path ⟨length, most'⟩ ts := by
  cases ts with
  | nil => rfl
  | cons t r =>
    rw [path, path, names_eq]
    rfl

theorem integers_eq (ts : Tokens) :
    integers ⟨length, most⟩ ts = integers ⟨length, most'⟩ ts := by
  fun_induction integers ⟨length, most⟩ ts with
  | case1 extent n extent' r ih =>
    rw [integers, ih]
  | case2 extent r hinteger =>
    rw [integers]
    · rfl
    · assumption
  | case3 ts hcomma hend => rw [integers] <;> assumption

/-! ## Brackets -/

variable {most'} {d : Difference Cause}

/-- A reader of expressions for each limit, the one for the smaller limit only while levels of
nesting are left to it. -/
inductive InsideFollows (d : Difference Cause) : Inside → Inside → Prop
  | none (inside : Inside) : InsideFollows d .none inside
  | some {reader reader' : (ts : Tokens) → Reading Expression ts}
      (h : ∀ ts, Follows d.parseErrors (reader ts) (reader' ts)) :
      InsideFollows d (.some reader) (.some reader')

/-- Tokens that start the call of a function. -/
def StartsCall (ts : Tokens) : Prop :=
  ∃ name extent extent' r,
    ts = ⟨.identifier name, extent⟩ :: ⟨.symbol .leftParen, extent'⟩ :: r

/-- A path has no levels of nesting. -/
theorem term_follows_of_not_call {levels levels' : Nat} {ts : Tokens} (h : ¬StartsCall ts) :
    Follows d.parseErrors (term ⟨length, most⟩ levels ts) (term ⟨length, most'⟩ levels' ts) := by
  have hcall : ∀ name extent extent' r,
      ts ≠ ⟨.identifier name, extent⟩ :: ⟨.symbol .leftParen, extent'⟩ :: r := by
    intro name extent extent' r heq
    exact h ⟨name, extent, extent', r, heq⟩
  rw [term_of_not_call _ hcall, term_of_not_call _ hcall, path_eq most']
  exact .refl _

variable (refuses : ∀ position, d.stops (.unparsable (.nestingTooDeep most position)))

include refuses

theorem term_follows {levels levels' : Nat} (hlevels : levels ≤ levels') (ts : Tokens) :
    Follows d.parseErrors (term ⟨length, most⟩ levels ts) (term ⟨length, most'⟩ levels' ts) := by
  induction levels generalizing levels' ts with
  | zero =>
    by_cases hcall : StartsCall ts
    · obtain ⟨name, extent, extent', r, rfl⟩ := hcall
      exact .stopped (refuses extent.start)
    · exact term_follows_of_not_call hcall
  | succ levels ih =>
    obtain ⟨levels', rfl⟩ : ∃ l, levels' = l + 1 := ⟨levels' - 1, by omega⟩
    by_cases hcall : StartsCall ts
    · obtain ⟨name, extent, extent', r, rfl⟩ := hcall
      rw [term, term]
      have hinner : levels ≤ levels' := by omega
      apply (ih hinner r).bind
      rintro ⟨argument, ⟨s, h⟩⟩
      dsimp only
      rw [integers_eq most']
      exact .refl _
    · exact term_follows_of_not_call hcall

variable {inside inside' : Inside} (hinside : InsideFollows d inside inside')

include hinside

theorem bracketed_follows (position : Nat) (closing : Symbol) (expected : Expected)
    (ts : Tokens) :
    Follows d.parseErrors (bracketed ⟨length, most⟩ inside position closing expected ts)
      (bracketed ⟨length, most'⟩ inside' position closing expected ts) := by
  cases hinside with
  | none => exact .stopped (refuses position)
  | some h =>
    apply (h ts).bind
    rintro ⟨e, ⟨s, hs⟩⟩
    exact .refl _

theorem methodFilter_follows (position : Nat) (ts : Tokens) :
    Follows d.parseErrors (methodFilter ⟨length, most⟩ inside position ts)
      (methodFilter ⟨length, most'⟩ inside' position ts) := by
  unfold methodFilter
  split
  · cases hinside with
    | none => exact .stopped (refuses position)
    | some h => exact .refl _
  · apply (bracketed_follows refuses hinside position .rightParen .closingParen _).bind
    rintro ⟨⟨e, extent⟩, rest⟩
    exact .refl _

theorem behindPath_follows (p : Path) (ts : Tokens) :
    Follows d.parseErrors (behindPath ⟨length, most⟩ inside p ts)
      (behindPath ⟨length, most'⟩ inside' p ts) := by
  unfold behindPath
  split
  · cases Existence.ofMethod? p.last.value with
    | none => exact .refl _
    | some test =>
      dsimp only
      cases p.parent? with
      | none => exact .refl _
      | some navigation =>
        apply (methodFilter_follows refuses hinside p.last.extent.start _).bind
        rintro ⟨⟨filter, closing⟩, ⟨rest, h⟩⟩
        exact .refl _
  · exact .refl _
  · apply (bracketed_follows refuses hinside _ .rightBrace .closingBrace _).bind
    rintro ⟨⟨filter, closing⟩, ⟨rest, h⟩⟩
    exact .refl _
  · exact .refl _
  · exact .refl _

theorem leaf_follows {levels levels' : Nat} (hlevels : levels ≤ levels') (ts : Tokens) :
    Follows d.parseErrors (leaf ⟨length, most⟩ levels inside ts)
      (leaf ⟨length, most'⟩ levels' inside' ts) := by
  unfold leaf
  split
  · apply (term_follows refuses hlevels _).bind
    rintro ⟨operand, ⟨s, h⟩⟩
    exact .refl _
  · rw [path_eq most']
    apply Follows.bind_same
    rintro ⟨p, ⟨s, h⟩⟩
    apply (behindPath_follows refuses hinside p s).bind
    rintro ⟨e, ⟨rest, h'⟩⟩
    exact .refl _

theorem primary_follows {levels levels' : Nat} (hlevels : levels ≤ levels') (ts : Tokens) :
    Follows d.parseErrors (primary ⟨length, most⟩ levels inside ts)
      (primary ⟨length, most'⟩ levels' inside' ts) := by
  unfold primary
  split
  · exact .refl _
  · exact .refl _
  · apply (bracketed_follows refuses hinside _ .rightParen .closingParen _).bind
    rintro ⟨⟨inner, closing⟩, ⟨rest, h⟩⟩
    exact .refl _
  · exact leaf_follows refuses hinside hlevels _
  · exact leaf_follows refuses hinside hlevels _
  · exact .refl _

/-! ## Chains -/

omit refuses hinside

theorem chain_follows {α : Type} {separator : Symbol} {item item' : (ts : Tokens) → Reading α ts}
    (hitem : ∀ ts, Follows d.parseErrors (item ts) (item' ts)) (ts : Tokens) :
    Follows d.parseErrors (chain separator item ts) (chain separator item' ts) := by
  -- The induction is on the number of tokens: what an item leaves is shorter, but no part of `ts`.
  obtain ⟨n, hn⟩ : ∃ n, ts.length = n := ⟨_, rfl⟩
  induction n using Nat.strongRecOn generalizing ts with
  | _ n ih =>
    rw [chain.eq_def separator item, chain.eq_def separator item']
    apply (hitem ts).bind
    rintro ⟨first, ⟨behind, hlt⟩⟩
    cases behind with
    | nil => exact .refl _
    | cons t r =>
      dsimp only
      by_cases hseparator : t.value = .symbol separator
      · rw [if_pos hseparator, if_pos hseparator]
        simp only [List.length_cons] at hlt
        apply (ih r.length (by omega) r rfl).bind
        rintro ⟨⟨second, others⟩, ⟨s, hs⟩⟩
        exact .refl _
      · rw [if_neg hseparator, if_neg hseparator]
        exact .refl _

include refuses hinside

theorem disjunction_follows {levels levels' : Nat} (hlevels : levels ≤ levels') (ts : Tokens) :
    Follows d.parseErrors (disjunction ⟨length, most⟩ levels inside ts)
      (disjunction ⟨length, most'⟩ levels' inside' ts) := by
  have hconjunction : ∀ ts, Follows d.parseErrors (conjunction ⟨length, most⟩ levels inside ts)
      (conjunction ⟨length, most'⟩ levels' inside' ts) := by
    intro ts
    apply (chain_follows (primary_follows refuses hinside hlevels) ts).bind
    rintro ⟨⟨first, others⟩, rest⟩
    exact .refl _
  apply (chain_follows hconjunction ts).bind
  rintro ⟨⟨first, others⟩, rest⟩
  exact .refl _

omit hinside

theorem expression_follows {levels levels' : Nat} (hlevels : levels ≤ levels') (ts : Tokens) :
    Follows d.parseErrors (expression ⟨length, most⟩ levels ts)
      (expression ⟨length, most'⟩ levels' ts) := by
  induction levels generalizing levels' ts with
  | zero =>
    rw [expression, expression.eq_def]
    cases levels' with
    | zero => exact disjunction_follows refuses (.none _) hlevels ts
    | succ levels' => exact disjunction_follows refuses (.none _) hlevels ts
  | succ levels ih =>
    obtain ⟨levels', rfl⟩ : ∃ l, levels' = l + 1 := ⟨levels' - 1, by omega⟩
    rw [expression, expression]
    have hinner : levels ≤ levels' := by omega
    exact disjunction_follows refuses (.some (ih hinner)) hlevels ts

end Grammar

/-- A text read under a larger limit to its nesting, unless it exceeds the smaller one. -/
theorem Expression.parse_follows {d : Difference Cause} {most most' : Nat} (hmost : most ≤ most')
    (refuses : ∀ position, d.stops (.unparsable (.nestingTooDeep most position)))
    (source : String) :
    Follows d.parseErrors (Expression.parse most source) (Expression.parse most' source) := by
  apply Follows.bind_same
  intro tokens
  apply (Grammar.expression_follows refuses hmost tokens).bind
  rintro ⟨e, ⟨rest, h⟩⟩
  cases rest with
  | nil => exact .refl _
  | cons t r => exact .refl _

end Criteria.Language
