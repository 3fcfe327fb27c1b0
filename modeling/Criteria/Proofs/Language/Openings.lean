import Criteria.Proofs.Language.Brackets
import Criteria.Proofs.Language.LeafTokens
import Criteria.Proofs.Language.Tiling
import Criteria.Proofs.Results

/-! # Brackets that are refused

A text that is nested too deep is refused at a bracket, in front of which as many brackets are open
as the limit allows (`Overflows`, `expression_refuses`). The error is placed at the bracket of a
group, or at the name of the function or method that the bracket belongs to. Only a filter behind
`not exists` is placed at the end of this word, where its brace stands unless there are blanks
between the two (`nestingTooDeep_points`).
-/

set_option autoImplicit false

namespace Criteria.Language

open Number Grammar Criteria.Language.Derivation

/-! ## Openings -/

/-- A bracket that uses up a level of nesting, with the tokens in front that tell its kind. -/
inductive Opening where
  | group (paren : Extent)
  | call (name : Located String) (paren : Extent)
  | method (dot : Extent) (test : Existence) (name paren : Extent)
  | braces (negation word brace : Extent)

namespace Opening

/-- The tokens of the opening. -/
def tokens : Opening → Tokens
  | group paren => [⟨.symbol .leftParen, paren⟩]
  | call name paren => [⟨.identifier name.value, name.extent⟩, ⟨.symbol .leftParen, paren⟩]
  | method dot test name paren =>
    [⟨.symbol .dot, dot⟩, ⟨.identifier test.method, name⟩, ⟨.symbol .leftParen, paren⟩]
  | braces negation word brace =>
    [⟨.keyword .notWord, negation⟩, ⟨.identifier "exists", word⟩, ⟨.symbol .leftBrace, brace⟩]

/-- The range of the token that stands for the opening: the name in front of the bracket, if the
function or method has one, and else the bracket. -/
def mark : Opening → Extent
  | group paren => paren
  | call name _ => name.extent
  | method _ _ name _ => name
  | braces _ _ brace => brace

/-- Where the opening is reported if it is refused. -/
def reported : Opening → Nat
  | group paren => paren.start
  | call name _ => name.extent.start
  | method _ _ name _ => name.start
  | braces _ word _ => word.stop

/-- There are blanks between `exists` and the brace behind it. -/
def Spaced : Opening → Prop
  | braces _ word brace => word.stop < brace.start
  | _ => False

end Opening

/-- Whether an operand may start behind a token. -/
def startsOperand (t : Token) : Bool :=
  t = .symbol .ampersand || t = .symbol .pipe || t = .symbol .leftParen || t = .symbol .leftBrace

/-- An operand may start behind the tokens. -/
def EndsOpen (ts : Tokens) : Prop := ∀ t ∈ ts.getLast?, startsOperand t.value = true

theorem EndsOpen.nil : EndsOpen [] := by
  simp [EndsOpen]

theorem EndsOpen.append {ts us : Tokens} (hts : EndsOpen ts) (hus : EndsOpen us) :
    EndsOpen (ts ++ us) := by
  intro t ht
  rw [List.getLast?_append] at ht
  cases h : us.getLast? with
  | none =>
    rw [h] at ht
    exact hts t ht
  | some u =>
    rw [h] at ht
    exact hus t (h ▸ ht)

namespace Opening

@[simp] theorem openBrackets_tokens (o : Opening) : openBrackets o.tokens = 1 := by
  cases o <;> simp [tokens]

/-- Behind an opening an operand may start. -/
theorem endsOpen_tokens (o : Opening) (front : Tokens) : EndsOpen (front ++ o.tokens) := by
  cases o <;> simp [tokens, EndsOpen, startsOperand]

end Opening

/-- The opening may stand behind the tokens: what might be the bracket of a list or of a method, or
an operator in front of a list, is where an operand starts. -/
def Opening.Follows (front : Tokens) : Opening → Prop
  | group _ => EndsOpen front
  | call _ _ => EndsOpen front
  | method _ _ _ _ => True
  | braces _ _ _ => True

/-- One of the tokens' openings, in front of which as many brackets are open as there are levels, is
reported at the position. -/
def Overflows (levels : Nat) (ts : Tokens) (position : Nat) : Prop :=
  ∃ front back, ∃ o : Opening, ts = front ++ (o.tokens ++ back) ∧ o.Follows front ∧
    openBrackets front = levels ∧ position = o.reported

/-- Further tokens in front, behind which an operand may start. -/
theorem Overflows.behind {taken ts : Tokens} {levels position : Nat}
    (h : Overflows levels ts position) {opened : Nat} (hopened : openBrackets taken = opened)
    (htaken : EndsOpen taken) : Overflows (levels + opened) (taken ++ ts) position := by
  obtain ⟨front, back, o, rfl, hfollows, hlevels, rfl⟩ := h
  refine ⟨taken ++ front, back, o, by simp, ?_, ?_, rfl⟩
  · cases o with
    | group paren => exact htaken.append hfollows
    | call name paren => exact htaken.append hfollows
    | method dot test name paren => trivial
    | braces negation word brace => trivial
  · simp [hopened, hlevels, Int.add_comm]

/-! ## Readers that refuse no bracket -/

/-- The error is not about nesting. -/
def IsFlat (e : ParseError) : Prop := ∀ most position, e ≠ .nestingTooDeep most position

variable (b : Bounds)

theorem unexpected_flat (expected : Expected) (ts : Tokens) :
    IsFlat (unexpected b expected ts) := by
  cases ts <;> rintro _ _ ⟨⟩

theorem require_flat (token : Token) (expected : Expected) (ts : Tokens) :
    FailsWith IsFlat (require b token expected ts) := by
  cases ts with
  | nil => exact .error (unexpected_flat b expected [])
  | cons t r =>
    rw [require]
    split
    · exact .ok _
    · exact .error (unexpected_flat b expected (t :: r))

theorem literal_flat (ts : Tokens) : FailsWith IsFlat (literal b ts) := by
  cases ts with
  | nil => exact .error (unexpected_flat b .literal [])
  | cons t r =>
    rw [literal]
    split
    · exact .ok _
    · exact .error (unexpected_flat b .literal (t :: r))

variable {b} in
/-- An error of a chain is one of an item, in front of which there are items with separators behind
them. -/
theorem chain_error {α : Type} {separator : Symbol} {item : (ts : Tokens) → Reading α ts}
    {R : Production α} (hsound : Sound item R) (hclosed : Closed R)
    (hseparator : (Token.symbol separator).opens = 0) {ts : Tokens} {e : ParseError}
    (h : chain separator item ts = .error e) :
    ∃ front back, ts = front ++ back ∧ item back = .error e ∧ openBrackets front = 0 ∧
      ∀ t ∈ front.getLast?, t.value = .symbol separator := by
  -- The induction is on the number of tokens: what an item leaves is shorter, but no part of `ts`.
  obtain ⟨n, hn⟩ : ∃ n, ts.length = n := ⟨_, rfl⟩
  induction n using Nat.strongRecOn generalizing ts with
  | _ n ih =>
    rw [chain] at h
    rcases bind_eq_error.1 h with h | ⟨⟨first, ⟨behind, hlt⟩⟩, hfirst, h⟩
    · exact ⟨[], ts, rfl, h, rfl, by simp⟩
    · cases behind with
      | nil => cases h
      | cons t r =>
        dsimp only at h
        split at h
        · rename_i ht
          rcases bind_eq_error.1 h with h | ⟨⟨⟨second, others⟩, ⟨s, hs⟩⟩, -, h⟩
          · obtain ⟨taken, htaken, hR⟩ := hsound hfirst
            simp only [List.length_cons] at hlt
            obtain ⟨front, back, rfl, hitem, hopen, hlast⟩ := ih r.length (by omega) h rfl
            refine ⟨taken ++ t :: front, back, by simp [htaken], hitem, ?_, ?_⟩
            · simp [hclosed _ _ hR, ht, hseparator, hopen]
            · rw [List.getLast?_append, List.getLast?_cons]
              rintro u ⟨⟩
              cases hfront : front.getLast? with
              | none => exact ht
              | some v => exact hlast v hfront
          · cases h
        · cases h

theorem parameter_flat (ts : Tokens) : FailsWith IsFlat (parameter b ts) := by
  cases ts with
  | nil => exact literal_flat b []
  | cons t r =>
    rw [parameter]
    split
    · have hitems : FailsWith IsFlat (chain .comma (literal b) r) := by
        intro e h
        obtain ⟨front, back, -, hitem, -⟩ :=
          chain_error (literal_sound b) isLiteral_closed rfl h
        exact literal_flat b back e hitem
      refine hitems.bind ?_
      rintro ⟨⟨first, others⟩, ⟨s, hs⟩⟩ -
      exact (require_flat b _ _ s).bind fun _ _ => .ok _
    · exact literal_flat b (t :: r)

theorem comparator_flat (ts : Tokens) : FailsWith IsFlat (comparator b ts) := by
  cases ts with
  | nil => exact .error (unexpected_flat b .operator [])
  | cons t r =>
    rw [comparator.eq_def]
    dsimp only
    split
    · exact .ok _
    · split
      · cases r with
        | nil => exact .error (unexpected_flat b .operator [])
        | cons u s =>
          dsimp only
          split
          · exact .ok _
          · exact .error (unexpected_flat b .operator (u :: s))
      · exact .error (unexpected_flat b .operator (t :: r))

theorem unaryComparator?_flat (ts : Tokens) : FailsWith IsFlat (unaryComparator? b ts) := by
  unfold unaryComparator?
  split
  · exact (require_flat b _ _ _).bind fun _ _ => .ok _
  · exact (require_flat b _ _ _).bind fun _ _ => .ok _
  · exact .ok _
  · exact .ok _

theorem comparison_flat (operand : Term) (ts : Tokens) :
    FailsWith IsFlat (comparison b operand ts) := by
  unfold comparison
  refine (unaryComparator?_flat b ts).bind fun found _ => ?_
  split
  · exact .ok _
  · refine (comparator_flat b ts).bind ?_
    rintro ⟨c, ⟨s, hs⟩⟩ -
    exact (parameter_flat b s).bind fun _ _ => .ok _

theorem names_flat (ts : Tokens) : FailsWith IsFlat (names b ts) := by
  fun_induction names b ts with
  | case1 extent t r name hname ih => exact ih.bind fun _ _ => .ok _
  | case2 extent t r hname => exact .error (unexpected_flat b .member (t :: r))
  | case3 extent => exact .error (unexpected_flat b .member [])
  | case4 => exact .ok _

theorem path_flat (ts : Tokens) : FailsWith IsFlat (path b ts) := by
  cases ts with
  | nil => exact .error (unexpected_flat b .root [])
  | cons t r =>
    rw [path]
    split
    · exact .error (unexpected_flat b .root (t :: r))
    · refine (names_flat b r).bind ?_
      rintro ⟨segments, ⟨rest, hle⟩⟩ -
      dsimp only
      split
      · exact .ok _
      · exact .error (unexpected_flat b .dot rest)

theorem integers_flat (ts : Tokens) : FailsWith IsFlat (integers b ts) := by
  fun_induction integers b ts with
  | case1 extent n extent' r ih => exact ih.bind fun _ _ => .ok _
  | case2 extent r hinteger => exact .error (unexpected_flat b .integer r)
  | case3 => exact .ok _

/-! ## Readers that refuse brackets -/

section

variable {α : Type}

/-- The result fails for nesting only at an opening of the tokens that is a level too deep. -/
def Refuses (levels : Nat) (ts : Tokens) (r : Except ParseError α) : Prop :=
  ∀ most position, r = .error (.nestingTooDeep most position) →
    most = b.maxDepth ∧ Overflows levels ts position

variable {b} {levels : Nat} {ts : Tokens}

theorem Refuses.of_flat {r : Except ParseError α} (h : FailsWith IsFlat r) :
    Refuses b levels ts r :=
  fun _ _ hr => absurd rfl (h _ hr _ _)

theorem Refuses.error {position : Nat} (h : Overflows levels ts position) :
    Refuses b levels ts (.error (.nestingTooDeep b.maxDepth position) : Except ParseError α) := by
  rintro _ _ ⟨⟩
  exact ⟨rfl, h⟩

theorem Refuses.bind {β : Type} {r : Except ParseError α} {f : α → Except ParseError β}
    (h : Refuses b levels ts r) (next : ∀ a, r = .ok a → Refuses b levels ts (f a)) :
    Refuses b levels ts (r >>= f) := by
  intro most position hr
  rcases bind_eq_error.1 hr with hr | ⟨a, ha, hf⟩
  · exact h most position hr
  · exact next a ha most position hf

/-- Further tokens in front, behind which an operand may start. -/
theorem Refuses.behind {r : Except ParseError α} (h : Refuses b levels ts r) {taken : Tokens}
    {opened : Nat} (hopened : openBrackets taken = opened) (htaken : EndsOpen taken) :
    Refuses b (levels + opened) (taken ++ ts) r := by
  intro most position hr
  obtain ⟨hmost, hoverflows⟩ := h most position hr
  exact ⟨hmost, hoverflows.behind hopened htaken⟩

theorem chain_refuses {separator : Symbol} {item : (ts : Tokens) → Reading α ts}
    {R : Production α} (hsound : Sound item R) (hclosed : Closed R)
    (hseparator : (Token.symbol separator).opens = 0)
    (hstarts : startsOperand (.symbol separator) = true)
    (hitem : ∀ ts, Refuses b levels ts (item ts)) (ts : Tokens) :
    Refuses b levels ts (chain separator item ts) := by
  intro most position h
  obtain ⟨front, back, rfl, hback, hopen, hlast⟩ := chain_error hsound hclosed hseparator h
  have hends : EndsOpen front := fun t ht => hlast t ht ▸ hstarts
  have hfront : openBrackets front = (0 : Nat) := hopen
  exact (hitem back).behind hfront hends most position hback

end

theorem term_refuses (levels : Nat) (ts : Tokens) : Refuses b levels ts (term b levels ts) := by
  fun_induction term b levels ts with
  | case1 name extent extent' r =>
    exact .error ⟨[], r, .call ⟨name, extent⟩ extent', rfl, .nil, rfl, rfl⟩
  | case2 levels name extent extent' r ih =>
    let o : Opening := .call ⟨name, extent⟩ extent'
    have hopened : openBrackets o.tokens = (1 : Nat) := o.openBrackets_tokens
    refine (ih.behind hopened (o.endsOpen_tokens [])).bind ?_
    rintro ⟨argument, ⟨s, hs⟩⟩ -
    refine .of_flat ((integers_flat b s).bind ?_)
    rintro ⟨others, ⟨s', hs'⟩⟩ -
    exact (require_flat b _ _ s').bind fun _ _ => .ok _
  | case3 levels ts => exact .of_flat ((path_flat b ts).bind fun _ _ => .ok _)

/-! ## Leaves -/

/-- What stands inside a bracket is read with one level less, unless none is left. -/
inductive InsideRefuses : Nat → Inside → Prop
  | none : InsideRefuses 0 none
  | some {levels : Nat} {f : (ts : Tokens) → Reading Expression ts}
      (h : ∀ ts, Refuses b levels ts (f ts)) : InsideRefuses (levels + 1) (some f)

section

variable {b} {levels : Nat} {inside : Inside} (hinside : InsideRefuses b levels inside)

include hinside

theorem bracketed_refuses {front : Tokens} {o : Opening} (hfollows : o.Follows front)
    (hfront : openBrackets front = 0) (closing : Symbol) (expected : Expected) (ts : Tokens) :
    Refuses b levels (front ++ (o.tokens ++ ts))
      (bracketed b inside o.reported closing expected ts) := by
  unfold bracketed
  cases hinside with
  | none => exact .error ⟨front, ts, o, rfl, hfollows, hfront, rfl⟩
  | some h =>
    have hopened : openBrackets (front ++ o.tokens) = (1 : Nat) := by simp [hfront]
    rw [← List.append_assoc]
    refine ((h ts).behind hopened (o.endsOpen_tokens front)).bind ?_
    rintro ⟨inner, ⟨s, hs⟩⟩ -
    exact .of_flat ((require_flat b _ _ s).bind fun _ _ => .ok _)

theorem methodFilter_refuses {front : Tokens} {o : Opening} (hfollows : o.Follows front)
    (hfront : openBrackets front = 0) (ts : Tokens) :
    Refuses b levels (front ++ (o.tokens ++ ts)) (methodFilter b inside o.reported ts) := by
  unfold methodFilter
  split
  · cases hinside with
    | none => exact .error ⟨front, _, o, rfl, hfollows, hfront, rfl⟩
    | some h => exact .of_flat (.ok _)
  · exact (bracketed_refuses hinside hfollows hfront _ _ _).bind fun _ _ => .of_flat (.ok _)

omit hinside in
/-- The names behind a root end with a dot and the last name. -/
theorem exists_last_of_areNames {ts : Tokens} {name : Located String}
    {names : List (Located String)} (h : AreNames ts (names ++ [name])) :
    ∃ us dot last, ts = us ++ [⟨.symbol .dot, dot⟩, ⟨last, name.extent⟩] ∧
      last.name? = some name.value := by
  induction names generalizing ts with
  | nil =>
    cases h with
    | @cons t u _ _ _ before h tail =>
      obtain ⟨_, dot⟩ := t
      cases before
      cases tail
      exact ⟨[], dot, u.value, rfl, h⟩
  | cons first names ih =>
    cases h with
    | @cons t u _ _ _ _ _ tail =>
      obtain ⟨us, dot, last, rfl, hlast⟩ := ih tail
      exact ⟨t :: u :: us, dot, last, rfl, hlast⟩

omit hinside in
/-- No reserved word names a method. -/
theorem eq_identifier_of_ofMethod? {t : Token} {name : String} {test : Existence}
    (h : t.name? = some name) (htest : Existence.ofMethod? name = some test) :
    t = .identifier test.method := by
  cases t with
  | identifier name =>
    cases h
    unfold Existence.ofMethod? at htest
    split at htest <;> cases htest <;> rfl
  | keyword k =>
    cases h
    cases k <;> cases htest
  | _ => cases h

omit hinside in
/-- A path whose last name is a method ends with a dot and this name. -/
theorem exists_method_of_isPath {ts : Tokens} {p : Path} (h : IsPath ts p) {test : Existence}
    (htest : Existence.ofMethod? p.last.value = some test) :
    ∃ us dot, ts = us ++ [⟨.symbol .dot, dot⟩, ⟨.identifier test.method, p.last.extent⟩] ∧
      openBrackets us = 0 := by
  have hclosed := isPath_closed _ _ h
  obtain ⟨hroot, hnames, hp⟩ := h
  rename_i root _ _ _
  rw [← (segments_of_ofSegments? hp).1, Path.segments] at hnames
  obtain ⟨us, dot, last, rfl, hlast⟩ := exists_last_of_areNames hnames
  obtain rfl := eq_identifier_of_ofMethod? hlast htest
  refine ⟨root :: us, dot, rfl, ?_⟩
  simpa using hclosed

theorem behindPath_refuses {taken : Tokens} {p : Path} (hp : IsPath taken p) (ts : Tokens) :
    Refuses b levels (taken ++ ts) (behindPath b inside p ts) := by
  unfold behindPath
  split
  · rename_i paren r
    split
    · exact .of_flat (comparison_flat b _ _)
    · rename_i test htest
      split
      · exact .of_flat (.error fun _ _ h => nomatch h)
      · obtain ⟨us, dot, rfl, hus⟩ := exists_method_of_isPath hp htest
        let o : Opening := .method dot test p.last.extent paren
        have hfollows : o.Follows us := trivial
        have htokens : us ++ [⟨.symbol .dot, dot⟩, ⟨.identifier test.method, p.last.extent⟩] ++
            ⟨.symbol .leftParen, paren⟩ :: r = us ++ (o.tokens ++ r) := by
          simp [o, Opening.tokens]
        rw [htokens]
        refine (methodFilter_refuses hinside hfollows hus r).bind ?_
        rintro ⟨⟨filter, closing⟩, ⟨rest, h⟩⟩ -
        exact .of_flat (.ok _)
  · exact .of_flat (.ok _)
  · rename_i negation word brace r
    let o : Opening := .braces negation word brace
    have hfollows : o.Follows taken := trivial
    refine (bracketed_refuses hinside hfollows (isPath_closed _ _ hp) _ _ r).bind ?_
    rintro ⟨⟨filter, closing⟩, ⟨rest, h⟩⟩ -
    exact .of_flat (.ok _)
  · exact .of_flat (.ok _)
  · exact .of_flat (comparison_flat b _ _)

theorem leaf_refuses (ts : Tokens) : Refuses b levels ts (leaf b levels inside ts) := by
  unfold leaf
  split
  · refine (term_refuses b levels _).bind ?_
    rintro ⟨operand, ⟨s, hs⟩⟩ -
    exact .of_flat ((comparison_flat b operand s).bind fun _ _ => .ok _)
  · refine (Refuses.of_flat (path_flat b _)).bind ?_
    rintro ⟨p, ⟨s, hs⟩⟩ hp
    obtain ⟨taken, rfl, hpath⟩ := path_sound b hp
    exact (behindPath_refuses hinside hpath s).bind fun _ _ => .of_flat (.ok _)

/-! ## Expressions -/

theorem primary_refuses (ts : Tokens) : Refuses b levels ts (primary b levels inside ts) := by
  unfold primary
  split
  · exact .of_flat (.ok _)
  · exact .of_flat (.ok _)
  · rename_i paren r
    have hfollows : (Opening.group paren).Follows [] := .nil
    refine (bracketed_refuses hinside hfollows rfl _ _ r).bind ?_
    rintro ⟨⟨inner, closing⟩, ⟨rest, h⟩⟩ -
    exact .of_flat (.ok _)
  · exact leaf_refuses hinside _
  · exact leaf_refuses hinside _
  · exact .of_flat (.error (unexpected_flat b .operation _))

theorem disjunction_refuses {Inner : Option (Production Expression)}
    (hsound : InsideSound inside Inner) (hinner : InnerSuffices Inner) (ts : Tokens) :
    Refuses b levels ts (disjunction b levels inside ts) := by
  have hconjunction : ∀ ts, Refuses b levels ts (conjunction b levels inside ts) := by
    intro ts
    refine (chain_refuses (primary_sound b hsound levels) (isPrimary_closed hinner levels) rfl rfl
      (primary_refuses hinside) ts).bind ?_
    exact fun _ _ => .of_flat (.ok _)
  refine (chain_refuses (conjunction_sound b hsound levels) (isConjunction_closed hinner levels) rfl
    rfl hconjunction ts).bind ?_
  exact fun _ _ => .of_flat (.ok _)

end

/-- An expression is refused for nesting where a bracket is opened and no level is left. -/
theorem expression_refuses (levels : Nat) (ts : Tokens) :
    Refuses b levels ts (expression b levels ts) := by
  -- By induction on the levels: what stands inside brackets is on one level less.
  induction levels generalizing ts with
  | zero =>
    have hsound : InsideSound none none := fun f h => by cases h
    have hinner : InnerSuffices none := fun R h => by cases h
    exact disjunction_refuses .none hsound hinner ts
  | succ levels ih =>
    have hsound : InsideSound (some (expression b levels)) (some (IsExpression levels)) := by
      rintro f ⟨⟩
      exact ⟨_, rfl, expression_sound b levels⟩
    have hinner : InnerSuffices (some (IsExpression levels)) := by
      rintro R ⟨⟩
      exact fun _ _ => suffices_expression
    exact disjunction_refuses (.some ih) hsound hinner ts

theorem ofTokens_refuses (ts : Tokens) :
    Refuses b b.maxDepth ts (Expression.ofTokens b ts) := by
  unfold Expression.ofTokens
  refine (expression_refuses b b.maxDepth ts).bind ?_
  rintro ⟨e, ⟨rest, hlt⟩⟩ -
  dsimp only
  split
  · exact .of_flat (.ok _)
  · exact .of_flat (.error (unexpected_flat b .continuation _))

/-! ## Texts -/

/-- The characters of a text are cut into tokens without regard to brackets. -/
theorem tokenize_flat (source : String) : FailsWith IsFlat (tokenize source) := by
  rintro _ h most position rfl
  have hname := (tokensAt_error h).name
  simp [ParseError.name, ParseError.lexicalNames] at hname

/-- Where a token ends in front of a gap, none starts. -/
theorem start_ne_stop {front back : Tokens} {t u v : Located Token}
    (h : (front ++ t :: u :: back).Pairwise fun t u => t.extent.Before u.extent)
    (hgap : t.extent.stop < u.extent.start) (hv : v ∈ front ++ t :: u :: back) :
    v.extent.start ≠ t.extent.stop := by
  obtain ⟨-, hbehind, hfront⟩ := List.pairwise_append.1 h
  obtain ⟨ht, hrest⟩ := List.pairwise_cons.1 hbehind
  have htu := ht u List.mem_cons_self
  have hnonempty := htu.nonempty
  simp only [List.mem_append, List.mem_cons] at hv
  rcases hv with hv | rfl | rfl | hv
  · have hvt := hfront v hv t List.mem_cons_self
    have hstart := hvt.nonempty
    have hstop := hvt.apart
    omega
  · omega
  · omega
  · have huv := (List.pairwise_cons.1 hrest).1 v hv
    have hstart := huv.nonempty
    have hstop := huv.apart
    omega

namespace Opening

variable {front back : Tokens} {o : Opening}

/-- Unless there are blanks between `exists` and its brace, an opening is reported where the token
starts that stands for it. -/
theorem reported_eq (h : (front ++ (o.tokens ++ back)).Pairwise fun t u => t.extent.Before u.extent)
    (hspaced : ¬o.Spaced) : o.reported = o.mark.start := by
  cases o with
  | braces negation word brace =>
    have hbefore : word.Before brace := by
      simp only [tokens, List.pairwise_append, List.pairwise_cons] at h
      exact h.2.1.1.2.1 ⟨.symbol .leftBrace, brace⟩ List.mem_cons_self
    exact Nat.le_antisymm hbefore.apart (Nat.not_lt.1 hspaced)
  | _ => rfl

/-- With blanks between `exists` and its brace, no token starts at the end of the word. -/
theorem not_starts_of_spaced
    (h : (front ++ (o.tokens ++ back)).Pairwise fun t u => t.extent.Before u.extent)
    (hspaced : o.Spaced) {t : Located Token} (ht : t ∈ front ++ (o.tokens ++ back)) :
    t.extent.start ≠ o.reported := by
  cases o with
  | braces negation word brace =>
    have hsplit : front ++ ((braces negation word brace).tokens ++ back) =
        (front ++ [⟨.keyword .notWord, negation⟩]) ++
          ⟨.identifier "exists", word⟩ :: ⟨.symbol .leftBrace, brace⟩ :: back := by
      simp [tokens]
    rw [hsplit] at h ht
    exact start_ne_stop h hspaced ht
  | _ => exact absurd hspaced id

theorem exists_mark (o : Opening) : ∃ t ∈ o.tokens, t.extent = o.mark := by
  cases o <;> simp [tokens, mark]

end Opening

/-- A text that is nested too deep is refused at a bracket in front of which as many brackets are
open as the limit allows. The error is placed where the token starts that stands for the bracket,
except for a brace with blanks between it and `exists`: there no token starts at all. -/
theorem nestingTooDeep_points {maxDepth most position : Nat} {source : String}
    (h : Expression.parse maxDepth source = .error (.nestingTooDeep most position)) :
    most = maxDepth ∧ ∃ front back, ∃ o : Opening,
      tokenize source = .ok (front ++ (o.tokens ++ back)) ∧ o.Follows front ∧
      openBrackets front = maxDepth ∧ position = o.reported ∧
      (position = o.mark.start ↔ ¬o.Spaced) ∧
      ((∃ t ∈ front ++ (o.tokens ++ back), position = t.extent.start) ↔ ¬o.Spaced) := by
  rcases bind_eq_error.1 h with h | ⟨ts, hts, h⟩
  · exact absurd rfl (tokenize_flat source _ h most position)
  · obtain ⟨hmost, front, back, o, rfl, hfollows, hopen, rfl⟩ :=
      ofTokens_refuses _ ts most position h
    have hordered := tokensAt_ordered hts
    obtain ⟨t, ht, hmark⟩ := o.exists_mark
    have hmem : t ∈ front ++ (o.tokens ++ back) := by simp [ht]
    refine ⟨hmost, front, back, o, hts, hfollows, hopen, rfl, ⟨?_, ?_⟩, ⟨?_, ?_⟩⟩
    · intro heq hspaced
      exact Opening.not_starts_of_spaced hordered hspaced hmem (by rw [hmark, heq])
    · exact Opening.reported_eq hordered
    · rintro ⟨u, hu, heq⟩ hspaced
      exact Opening.not_starts_of_spaced hordered hspaced hu heq.symm
    · intro hspaced
      exact ⟨t, hmem, by rw [hmark, Opening.reported_eq hordered hspaced]⟩

/-- A method inside parentheses, with blanks around its name. -/
def nestedText : String := "(this.orders . exists (all))"

theorem nestedText_points :
    Expression.parse 1 nestedText = .error (.nestingTooDeep 1 15) ∧
      1 = 1 ∧ ∃ front back, ∃ o : Opening,
        tokenize nestedText = .ok (front ++ (o.tokens ++ back)) ∧ o.Follows front ∧
        openBrackets front = (1 : Nat) ∧ 15 = o.reported ∧ (15 = o.mark.start ↔ ¬o.Spaced) ∧
        ((∃ t ∈ front ++ (o.tokens ++ back), 15 = t.extent.start) ↔ ¬o.Spaced) := by
  have hparse : Expression.parse 1 nestedText = .error (.nestingTooDeep 1 15) := by cbv
  exact ⟨hparse, nestingTooDeep_points hparse⟩

/-- A filter inside parentheses, with a blank in front of its brace. -/
def spacedText : String := "(this.orders not exists \x7ball\x7d)"

/-- The error is placed between `exists` and the brace, which starts a byte further on. -/
theorem spacedText_between :
    Expression.parse 1 spacedText = .error (.nestingTooDeep 1 23) ∧
      ∃ ts, tokenize spacedText = .ok ts ∧ (∀ t ∈ ts, t.extent.start ≠ 23) ∧
        (⟨.symbol .leftBrace, ⟨24, 25⟩⟩ : Located Token) ∈ ts := by
  refine ⟨by cbv, [⟨.symbol .leftParen, ⟨0, 1⟩⟩, ⟨.keyword .thisWord, ⟨1, 5⟩⟩,
    ⟨.symbol .dot, ⟨5, 6⟩⟩, ⟨.identifier "orders", ⟨6, 12⟩⟩, ⟨.keyword .notWord, ⟨13, 16⟩⟩,
    ⟨.identifier "exists", ⟨17, 23⟩⟩, ⟨.symbol .leftBrace, ⟨24, 25⟩⟩,
    ⟨.keyword .allWord, ⟨25, 28⟩⟩, ⟨.symbol .rightBrace, ⟨28, 29⟩⟩,
    ⟨.symbol .rightParen, ⟨29, 30⟩⟩], by cbv, ?_, ?_⟩
  · decide
  · decide

end Criteria.Language
