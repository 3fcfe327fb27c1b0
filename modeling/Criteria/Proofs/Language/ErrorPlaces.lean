import Criteria.Proofs.Language.LeafTokens
import Criteria.Proofs.Language.Tiling

/-! # Where a text stops being read

A reader of the parser finds fault with a token, with the end of the text, or with a bracket that it
may not open, which is placed at a token as well (`ErrorAmong`, `expression_locates`). Tokens start
and end on boundaries of the text, so whatever is wrong with a text, it is placed on one
(`parse_error_boundary`).
-/

set_option autoImplicit false

namespace Criteria.Language

open Number Grammar Text Criteria.Language.Derivation

/-! ## Errors among tokens -/

/-- An error that is placed at one of the tokens or at the end of a text of the given length. What
it names as found is the token, or the method that a path ends with. -/
inductive ErrorAmong (length : Nat) (ts : Tokens) : ParseError → Prop
  | token {t : Located Token} (h : t ∈ ts) {found : Token}
      (hfound : found = t.value ∨ ∃ test : Existence, found = .identifier test.method)
      (expected : Expected) : ErrorAmong length ts (.unexpectedToken found expected t.extent)
  | ended (expected : Expected) : ErrorAmong length ts (.unexpectedEnd expected length)
  | opened {t : Located Token} (h : t ∈ ts) (most : Nat) :
      ErrorAmong length ts (.nestingTooDeep most t.extent.start)
  | behind {t : Located Token} (h : t ∈ ts) (most : Nat) :
      ErrorAmong length ts (.nestingTooDeep most t.extent.stop)

variable (b : Bounds) {whole : Tokens} {α : Type}

theorem unexpected_among (expected : Expected) {ts : Tokens} (h : ts ⊆ whole) :
    ErrorAmong b.length whole (unexpected b expected ts) := by
  cases ts with
  | nil => exact .ended expected
  | cons t r => exact .token (h List.mem_cons_self) (.inl rfl) expected

/-- Among the tokens of `whole`, the reader finds fault with one of them or with the end. -/
def Locates (whole : Tokens) (f : (ts : Tokens) → Reading α ts) : Prop :=
  ∀ ⦃ts : Tokens⦄, ts ⊆ whole → ∀ ⦃e : ParseError⦄, f ts = .error e → ErrorAmong b.length whole e

/-- What a reader leaves are tokens of the whole. -/
theorem Sound.subset {f : (ts : Tokens) → Reading α ts} {R : Production α} (h : Sound f R)
    {ts rest : Tokens} {a : α} {hlt : rest.length < ts.length} (hread : f ts = .ok (a, ⟨rest, hlt⟩))
    (hts : ts ⊆ whole) : rest ⊆ whole := by
  obtain ⟨taken, rfl, -⟩ := h hread
  exact fun t ht => hts (List.mem_append_right taken ht)

theorem require_locates (token : Token) (expected : Expected) :
    Locates b whole (require b token expected) := by
  intro ts hts e h
  cases ts with
  | nil =>
    cases h
    exact unexpected_among b expected hts
  | cons t r =>
    rw [require] at h
    split at h
    · cases h
    · cases h
      exact unexpected_among b expected hts

variable {b} in
theorem chain_locates {separator : Symbol} {item : (ts : Tokens) → Reading α ts}
    {R : Production α} (hsound : Sound item R) (hitem : Locates b whole item) :
    Locates b whole (chain separator item) := by
  intro ts hts e h
  -- The induction is on the number of tokens: what an item leaves is shorter, but no part of `ts`.
  obtain ⟨n, hn⟩ : ∃ n, ts.length = n := ⟨_, rfl⟩
  induction n using Nat.strongRecOn generalizing ts with
  | _ n ih =>
    rw [chain] at h
    rcases bind_eq_error.1 h with h | ⟨⟨first, ⟨behind, hlt⟩⟩, hfirst, h⟩
    · exact hitem hts h
    · cases behind with
      | nil => cases h
      | cons t r =>
        dsimp only at h
        split at h
        · rcases bind_eq_error.1 h with h | ⟨⟨⟨second, others⟩, ⟨s, hs⟩⟩, -, h⟩
          · have hr : r ⊆ whole := List.subset_of_cons_subset (hsound.subset hfirst hts)
            simp only [List.length_cons] at hlt
            exact ih r.length (by omega) hr h rfl
          · cases h
        · cases h

/-! ## Literals and operators -/

theorem literal_locates : Locates b whole (literal b) := by
  intro ts hts e h
  cases ts with
  | nil =>
    cases h
    exact unexpected_among b .literal hts
  | cons t r =>
    rw [literal] at h
    split at h
    · cases h
    · cases h
      exact unexpected_among b .literal hts

theorem parameter_locates : Locates b whole (parameter b) := by
  intro ts hts e h
  cases ts with
  | nil => exact literal_locates b hts h
  | cons t r =>
    rw [parameter] at h
    split at h
    · have hr : r ⊆ whole := List.subset_of_cons_subset hts
      rcases bind_eq_error.1 h with h | ⟨⟨⟨first, others⟩, ⟨s, hs⟩⟩, hitems, h⟩
      · exact chain_locates (literal_sound b) (literal_locates b) hr h
      · rcases bind_eq_error.1 h with h | ⟨⟨closing, ⟨rest, h'⟩⟩, -, h⟩
        · exact require_locates b _ _ ((chain_sound (literal_sound b)).subset hitems hr) h
        · cases h
    · exact literal_locates b hts h

theorem comparator_locates : Locates b whole (comparator b) := by
  intro ts hts e h
  cases ts with
  | nil =>
    cases h
    exact unexpected_among b .operator hts
  | cons t r =>
    rw [comparator.eq_def] at h
    dsimp only at h
    split at h
    · cases h
    · split at h
      · have hr : r ⊆ whole := List.subset_of_cons_subset hts
        cases r with
        | nil =>
          cases h
          exact unexpected_among b .operator hr
        | cons u s =>
          dsimp only at h
          split at h
          · cases h
          · cases h
            exact unexpected_among b .operator hr
      · cases h
        exact unexpected_among b .operator hts

theorem unaryComparator?_locates {ts : Tokens} (hts : ts ⊆ whole) {e : ParseError}
    (h : unaryComparator? b ts = .error e) : ErrorAmong b.length whole e := by
  unfold unaryComparator? at h
  split at h
  · rcases bind_eq_error.1 h with h | ⟨⟨extent, ⟨rest, h'⟩⟩, -, h⟩
    · exact require_locates b _ _ (List.subset_of_cons_subset (List.subset_of_cons_subset hts)) h
    · cases h
  · rcases bind_eq_error.1 h with h | ⟨⟨extent, ⟨rest, h'⟩⟩, -, h⟩
    · exact require_locates b _ _ (List.subset_of_cons_subset hts) h
    · cases h
  · cases h
  · cases h

theorem comparison_locates (operand : Term) : Locates b whole (comparison b operand) := by
  intro ts hts e h
  unfold comparison at h
  rcases bind_eq_error.1 h with h | ⟨found, -, h⟩
  · exact unaryComparator?_locates b hts h
  · split at h
    · cases h
    · rcases bind_eq_error.1 h with h | ⟨⟨c, ⟨s, hs⟩⟩, hc, h⟩
      · exact comparator_locates b hts h
      · rcases bind_eq_error.1 h with h | ⟨⟨l, ⟨rest, h'⟩⟩, -, h⟩
        · exact parameter_locates b ((comparator_sound b).subset hc hts) h
        · cases h

/-! ## Paths and terms -/

theorem names_locates {ts : Tokens} (hts : ts ⊆ whole) {e : ParseError}
    (h : names b ts = .error e) : ErrorAmong b.length whole e := by
  fun_induction names b ts with
  | case1 extent t r name hname ih =>
    rcases bind_eq_error.1 h with h | ⟨⟨others, ⟨rest, hle⟩⟩, -, h⟩
    · exact ih (List.subset_of_cons_subset (List.subset_of_cons_subset hts)) h
    · cases h
  | case2 extent t r hname =>
    cases h
    exact unexpected_among b .member (List.subset_of_cons_subset hts)
  | case3 extent =>
    cases h
    exact .ended _
  | case4 => cases h

theorem path_locates : Locates b whole (path b) := by
  intro ts hts e h
  cases ts with
  | nil =>
    cases h
    exact .ended _
  | cons t r =>
    have hr : r ⊆ whole := List.subset_of_cons_subset hts
    rw [path] at h
    split at h
    · cases h
      exact unexpected_among b .root hts
    · rcases bind_eq_error.1 h with h | ⟨⟨segments, ⟨rest, hle⟩⟩, hnames, h⟩
      · exact names_locates b hr h
      · dsimp only at h
        split at h
        · cases h
        · cases h
          obtain ⟨taken, rfl, -⟩ := names_sound b hnames
          exact unexpected_among b .dot fun u hu => hr (List.mem_append_right taken hu)

theorem integers_locates {ts : Tokens} (hts : ts ⊆ whole) {e : ParseError}
    (h : integers b ts = .error e) : ErrorAmong b.length whole e := by
  fun_induction integers b ts with
  | case1 extent n extent' r ih =>
    rcases bind_eq_error.1 h with h | ⟨⟨others, ⟨rest, hle⟩⟩, -, h⟩
    · exact ih (List.subset_of_cons_subset (List.subset_of_cons_subset hts)) h
    · cases h
  | case2 extent r hinteger =>
    cases h
    exact unexpected_among b .integer (List.subset_of_cons_subset hts)
  | case3 => cases h

theorem term_locates (levels : Nat) : Locates b whole (term b levels) := by
  intro ts hts e h
  fun_induction term b levels ts with
  | case1 name extent extent' r =>
    cases h
    exact .opened (hts List.mem_cons_self) b.maxDepth
  | case2 levels name extent extent' r ih =>
    have hr : r ⊆ whole := List.subset_of_cons_subset (List.subset_of_cons_subset hts)
    rcases bind_eq_error.1 h with h | ⟨⟨argument, ⟨s, hs⟩⟩, hargument, h⟩
    · exact ih hr h
    · have hs : s ⊆ whole := (term_sound b levels).subset hargument hr
      rcases bind_eq_error.1 h with h | ⟨⟨others, ⟨s', hs'⟩⟩, hothers, h⟩
      · exact integers_locates b hs h
      · obtain ⟨taken, rfl, -⟩ := integers_sound b hothers
        rcases bind_eq_error.1 h with h | ⟨⟨closing, ⟨rest, h'⟩⟩, -, h⟩
        · exact require_locates b _ _ (fun u hu => hs (List.mem_append_right taken hu)) h
        · cases h
  | case3 =>
    rcases bind_eq_error.1 h with h | ⟨⟨p, rest⟩, -, h⟩
    · exact path_locates b hts h
    · cases h

/-! ## Leaves -/

/-- A name of a path is written by a token of it. -/
theorem exists_token_of_areNames {ts : Tokens} {names : List (Located String)}
    (h : AreNames ts names) {name : Located String} (hname : name ∈ names) :
    ∃ t ∈ ts, t.extent = name.extent := by
  induction h with
  | nil => cases hname
  | @cons t u ts text names before htext tail ih =>
    rcases List.mem_cons.1 hname with rfl | hname
    · exact ⟨u, by simp, rfl⟩
    · obtain ⟨v, hv, hextent⟩ := ih hname
      exact ⟨v, by simp [hv], hextent⟩

theorem exists_last_of_isPath {ts : Tokens} {p : Path} (h : IsPath ts p) :
    ∃ t ∈ ts, t.extent = p.last.extent := by
  obtain ⟨hroot, hnames, hp⟩ := h
  obtain ⟨hsegments, -⟩ := segments_of_ofSegments? hp
  have hlast : p.last ∈ p.segments := by simp [Path.segments]
  rw [hsegments] at hlast
  obtain ⟨t, ht, hextent⟩ := exists_token_of_areNames hnames hlast
  exact ⟨t, List.mem_cons_of_mem _ ht, hextent⟩

/-- What is read inside brackets locates its errors, and leaves tokens of the whole. -/
def InsideLocates (whole : Tokens) (inside : Inside) : Prop :=
  ∀ f, inside = some f → Locates b whole f ∧ ∃ R, Sound f R

section

variable {b} {inside : Inside} (hinside : InsideLocates b whole inside)

include hinside

theorem bracketed_locates {position : Nat}
    (hposition : ErrorAmong b.length whole (.nestingTooDeep b.maxDepth position))
    (closing : Symbol) (expected : Expected) :
    Locates b whole (bracketed b inside position closing expected) := by
  intro ts hts e h
  unfold bracketed at h
  split at h
  · cases h
    exact hposition
  · rename_i f
    obtain ⟨hlocates, R, hsound⟩ := hinside f rfl
    rcases bind_eq_error.1 h with h | ⟨⟨inner, ⟨s, hs⟩⟩, hinner, h⟩
    · exact hlocates hts h
    · rcases bind_eq_error.1 h with h | ⟨⟨extent, ⟨rest, h'⟩⟩, -, h⟩
      · exact require_locates b _ _ (hsound.subset hinner hts) h
      · cases h

theorem methodFilter_locates {position : Nat}
    (hposition : ErrorAmong b.length whole (.nestingTooDeep b.maxDepth position)) :
    Locates b whole (methodFilter b inside position) := by
  intro ts hts e h
  unfold methodFilter at h
  split at h
  · split at h
    · cases h
      exact hposition
    · cases h
  · rcases bind_eq_error.1 h with h | ⟨⟨⟨e, extent⟩, rest⟩, -, h⟩
    · exact bracketed_locates hinside hposition _ _ hts h
    · cases h

theorem behindPath_locates {p : Path} (hp : ∃ t ∈ whole, t.extent = p.last.extent) :
    Locates b whole (behindPath b inside p) := by
  obtain ⟨t, ht, hextent⟩ := hp
  intro ts hts e h
  unfold behindPath at h
  split at h
  · split at h
    · exact comparison_locates b _ hts h
    · split at h
      · cases h
        rw [← hextent]
        exact .token ht (.inr ⟨_, rfl⟩) _
      · rcases bind_eq_error.1 h with h | ⟨⟨⟨filter, closing⟩, ⟨rest, h'⟩⟩, -, h⟩
        · rw [← hextent] at h
          exact methodFilter_locates hinside (.opened ht _)
            (List.subset_of_cons_subset hts) h
        · cases h
  · cases h
  · rename_i extent extent' extent'' r
    rcases bind_eq_error.1 h with h | ⟨⟨⟨filter, closing⟩, ⟨rest, h'⟩⟩, -, h⟩
    · have hword : (⟨.identifier "exists", extent'⟩ : Located Token) ∈ whole := hts (by simp)
      exact bracketed_locates hinside (.behind hword _) _ _ (fun u hu => hts (by simp [hu])) h
    · cases h
  · cases h
  · exact comparison_locates b _ hts h

theorem leaf_locates (levels : Nat) : Locates b whole (leaf b levels inside) := by
  intro ts hts e h
  unfold leaf at h
  split at h
  · rcases bind_eq_error.1 h with h | ⟨⟨operand, ⟨s, hs⟩⟩, hoperand, h⟩
    · exact term_locates b levels hts h
    · rcases bind_eq_error.1 h with h | ⟨⟨e, ⟨rest, h'⟩⟩, -, h⟩
      · exact comparison_locates b _ ((term_sound b levels).subset hoperand hts) h
      · cases h
  · rcases bind_eq_error.1 h with h | ⟨⟨p, ⟨s, hs⟩⟩, hp, h⟩
    · exact path_locates b hts h
    · have hrest : s ⊆ whole := (path_sound b).subset hp hts
      obtain ⟨taken, htaken, hpath⟩ := path_sound b hp
      obtain ⟨t, ht, hextent⟩ := exists_last_of_isPath hpath
      have hlast : t ∈ whole := hts (htaken ▸ List.mem_append_left s ht)
      rcases bind_eq_error.1 h with h | ⟨⟨e, ⟨rest, h'⟩⟩, -, h⟩
      · exact behindPath_locates hinside ⟨t, hlast, hextent⟩ hrest h
      · cases h

/-! ## Expressions -/

theorem primary_locates (levels : Nat) : Locates b whole (primary b levels inside) := by
  intro ts hts e h
  unfold primary at h
  split at h
  · cases h
  · cases h
  · rename_i extent r
    rcases bind_eq_error.1 h with h | ⟨⟨⟨inner, closing⟩, ⟨rest, h'⟩⟩, -, h⟩
    · have hopening : (⟨.symbol .leftParen, extent⟩ : Located Token) ∈ whole := hts (by simp)
      exact bracketed_locates hinside (.opened hopening _) _ _
        (List.subset_of_cons_subset hts) h
    · cases h
  · exact leaf_locates hinside levels hts h
  · exact leaf_locates hinside levels hts h
  · cases h
    exact unexpected_among b .operation hts

theorem disjunction_locates {Inner : Option (Production Expression)}
    (hsound : InsideSound inside Inner) (levels : Nat) :
    Locates b whole (disjunction b levels inside) := by
  have hconjunction : Locates b whole (conjunction b levels inside) := by
    intro ts hts e h
    unfold conjunction at h
    rcases bind_eq_error.1 h with h | ⟨⟨⟨first, others⟩, rest⟩, -, h⟩
    · exact chain_locates (primary_sound b hsound levels) (primary_locates hinside levels) hts h
    · cases h
  intro ts hts e h
  unfold disjunction at h
  rcases bind_eq_error.1 h with h | ⟨⟨⟨first, others⟩, rest⟩, -, h⟩
  · exact chain_locates (conjunction_sound b hsound levels) hconjunction hts h
  · cases h

end

/-- Whatever is wrong with an expression, it is placed at one of its tokens or at the end. -/
theorem expression_locates (levels : Nat) : Locates b whole (expression b levels) := by
  induction levels with
  | zero =>
    have hinside : InsideLocates b whole none := fun f h => by cases h
    have hsound : InsideSound none none := fun f h => by cases h
    exact disjunction_locates hinside hsound 0
  | succ levels ih =>
    have hinside : InsideLocates b whole (some (expression b levels)) := by
      intro f h
      cases h
      exact ⟨ih, _, expression_sound b levels⟩
    have hsound : InsideSound (some (expression b levels)) (some (IsExpression levels)) := by
      intro f h
      cases h
      exact ⟨_, rfl, expression_sound b levels⟩
    exact disjunction_locates hinside hsound (levels + 1)

theorem ofTokens_locates {ts : Tokens} {e : ParseError} (h : Expression.ofTokens b ts = .error e) :
    ErrorAmong b.length ts e := by
  unfold Expression.ofTokens at h
  rcases bind_eq_error.1 h with h | ⟨⟨expression, ⟨rest, hlt⟩⟩, hread, h⟩
  · exact expression_locates b b.maxDepth (List.Subset.refl ts) h
  · dsimp only at h
    split at h
    · cases h
    · cases h
      exact unexpected_among b .continuation
        ((expression_sound b b.maxDepth).subset hread (List.Subset.refl ts))

/-- Whatever is wrong with a text, it is placed where the text may be cut. -/
theorem parse_error_boundary {maxDepth : Nat} {source : String} {e : ParseError}
    (h : Expression.parse maxDepth source = .error e) : IsBoundary source.toList e.position := by
  rcases bind_eq_error.1 h with h | ⟨ts, hts, h⟩
  · exact (tokensAt_error h).boundary.1
  · cases ofTokens_locates _ h with
    | token ht => exact (tokensAt_boundary hts ht).1
    | ended => exact .length _
    | opened ht => exact (tokensAt_boundary hts ht).1
    | behind ht => exact (tokensAt_boundary hts ht).2

end Criteria.Language
