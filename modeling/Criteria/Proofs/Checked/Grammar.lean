import Criteria.Proofs.Checked.Tokens
import Criteria.Proofs.Language.Reading

/-! # Expressions, checked

The grammar is read with a count of the brackets that are open: an opening bracket counts up, and is
refused where the count exceeds the limit, and a closing one counts down. Whatever is read leaves
the count as it was (`Counts`), so it is never taken below zero, and the levels of nesting that are
left are those between the count and the limit (`expression_counts`).
-/

set_option autoImplicit false

namespace Criteria.Checked

open Criteria.Language Number

/-! ## Counting -/

/-- Reading with a count of open brackets. -/
abbrev Counting (α : Type) : Type := StateT Nat (Except (Stop ParseError)) α

/-- Something read from the front of the tokens while brackets are counted. -/
abbrev CountedReading (α : Type) (ts : Tokens) : Type := Counting (α × Rest ts)

variable {α β : Type} (b : Bounds)

/-- Reading without brackets that count. -/
def uncounted (r : Except ParseError α) : Counting α := fun depth =>
  regular (r.map fun a => (a, depth))

/-- Counts a bracket that was opened at `position`. -/
def enter (position : Nat) : Counting Unit := fun depth =>
  if b.maxDepth < depth + 1 then fail (.nestingTooDeep b.maxDepth position) else .ok ((), depth + 1)

/-- Counts a bracket that was closed. -/
def leave : Counting Unit := fun depth => do
  let depth ← guarded (minus depth 1)
  .ok ((), depth)

/-- The run that starts with one count reads what `r` says and ends with another count. -/
def Counts (depth depth' : Nat) (x : Counting α) (r : Except ParseError α) : Prop :=
  x depth = regular (r.map fun a => (a, depth'))

namespace Counts

variable {depth depth' depth'' : Nat}

theorem uncounted (r : Except ParseError α) : Counts depth depth (uncounted r) r := rfl

theorem pure (a : α) : Counts depth depth (pure a) (.ok a) := rfl

theorem bind {x : Counting α} {r : Except ParseError α} {f : α → Counting β}
    {g : α → Except ParseError β} (h : Counts depth depth' x r)
    (next : ∀ a, Counts depth' depth'' (f a) (g a)) :
    Counts depth depth'' (x >>= f) (r >>= g) := by
  show (x depth >>= fun step => f step.1 step.2) = _
  rw [h]
  cases r with
  | ok a => exact next a
  | error e => rfl

/-- A bracket that is counted is open in what follows. -/
theorem enter {b : Bounds} {position : Nat} (hdepth : depth < b.maxDepth) {f : Unit → Counting α}
    {r : Except ParseError α} (next : Counts (depth + 1) depth' (f ()) r) :
    Counts depth depth' (enter b position >>= f) r := by
  have henter : Checked.enter b position depth = .ok ((), depth + 1) := if_neg (by omega)
  show (Checked.enter b position depth >>= fun step => f step.1 step.2) = _
  rw [henter]
  exact next

/-- A bracket that exceeds the limit is refused. -/
theorem refused {b : Bounds} {position : Nat} (hdepth : b.maxDepth ≤ depth)
    (f : Unit → Counting α) :
    Counts depth depth' (Checked.enter b position >>= f)
      (.error (.nestingTooDeep b.maxDepth position)) := by
  have henter : Checked.enter b position depth = fail (.nestingTooDeep b.maxDepth position) :=
    if_pos (by omega)
  show (Checked.enter b position depth >>= fun step => f step.1 step.2) = _
  rw [henter]
  rfl

/-- A bracket that is open can be closed. -/
theorem leave {f : Unit → Counting α} {r : Except ParseError α}
    (next : Counts depth depth' (f ()) r) : Counts (depth + 1) depth' (leave >>= f) r := next

end Counts

/-! ## Terms -/

/-- What is left behind a part that may be empty. -/
def behindPart {s : Tokens} (part : { r : Tokens // r.length ≤ s.length }) (rest : Rest part.val) :
    Rest s :=
  ⟨rest.val, Nat.lt_of_lt_of_le rest.property part.property⟩

/-- A term. -/
def term : (ts : Tokens) → CountedReading Term ts
  | ⟨.identifier name, extent⟩ :: ⟨.symbol .leftParen, paren⟩ :: r => do
    enter b extent.start
    let (argument, s) ← term r
    let (others, part) ← uncounted (Grammar.integers b s.val)
    let (closing, rest) ←
      uncounted (Grammar.require b (.symbol .rightParen) .listContinuation part.val)
    leave
    let opened : Rest (⟨.identifier name, extent⟩ :: ⟨.symbol .leftParen, paren⟩ :: r) :=
      (Rest.tail _ _).trans (.tail _ r)
    pure (.call ⟨extent.start, closing.stop⟩ ⟨name, extent⟩ argument others,
      (opened.trans s).trans (behindPart part rest))
  | ts => do
    let (p, rest) ← uncounted (Grammar.path b ts)
    pure (.path p, rest)

theorem term_counts {depth levels : Nat} (hdepth : depth + levels = b.maxDepth) (ts : Tokens) :
    Counts depth depth (term b ts) (Grammar.term b levels ts) := by
  fun_induction Grammar.term b levels ts generalizing depth with
  | case1 name extent extent' r => exact .refused (by omega) _
  | case2 levels name extent extent' r ih =>
    apply Counts.enter (by omega)
    apply (ih (by omega)).bind
    rintro ⟨argument, ⟨s, h⟩⟩
    apply (Counts.uncounted _).bind
    rintro ⟨others, ⟨s', h'⟩⟩
    apply (Counts.uncounted _).bind
    rintro ⟨closing, ⟨rest, h''⟩⟩
    exact .leave (.pure _)
  | case3 levels ts hzero hsucc =>
    rw [term]
    · exact (Counts.uncounted _).bind fun _ => .pure _
    · rintro name extent extent' r rfl
      cases levels with
      | zero => exact hzero _ _ _ _ rfl rfl
      | succ levels => exact hsucc _ _ _ _ _ rfl rfl

/-! ## Leaves -/

/-- The reader of what stands inside a bracket. -/
abbrev Inside : Type := (ts : Tokens) → CountedReading Expression ts

variable (inside : Inside)

/-- What stands behind a bracket that was opened at `position`, through the closing one. -/
def bracketed (position : Nat) (closing : Symbol) (expected : Expected) (ts : Tokens) :
    CountedReading (Expression × Extent) ts := do
  enter b position
  let (e, s) ← inside ts
  let (extent, rest) ← uncounted (Grammar.require b (.symbol closing) expected s.val)
  leave
  pure ((e, extent), s.trans rest)

/-- What stands behind the parenthesis of a method on a relationship, through the closing one. -/
def methodFilter (position : Nat) : (ts : Tokens) → CountedReading (Option Expression × Extent) ts
  | ⟨.symbol .rightParen, extent⟩ :: r => do
    enter b position
    leave
    pure ((none, extent), .tail _ r)
  | ts => do
    let ((e, extent), rest) ← bracketed b inside position .rightParen .closingParen ts
    pure ((some e, extent), rest)

/-- What stands behind a path: an existence test or a comparison. -/
def behindPath (p : Path) : (ts : Tokens) → CountedReading Expression ts
  | ⟨.symbol .leftParen, paren⟩ :: r =>
    match Existence.ofMethod? p.last.value with
    | none => uncounted (Grammar.comparison b (.path p) (⟨.symbol .leftParen, paren⟩ :: r))
    | some test =>
      match p.parent? with
      | none =>
        uncounted (.error (.unexpectedToken (.identifier test.method) .relationship p.last.extent))
      | some navigation => do
        let ((filter, closing), rest) ← methodFilter b inside p.last.extent.start r
        pure (.existence ⟨p.extent.start, closing.stop⟩ navigation test filter,
          (Rest.tail _ r).trans rest)
  | ⟨.identifier "exists", extent⟩ :: r =>
    pure (.existence ⟨p.extent.start, extent.stop⟩ p .present none, .tail _ r)
  | ⟨.keyword .notWord, _⟩ :: ⟨.identifier "exists", extent⟩ :: ⟨.symbol .leftBrace, _⟩ :: r => do
    let ((filter, closing), rest) ←
      bracketed b inside extent.stop .rightBrace .closingBrace r
    pure (.existence ⟨p.extent.start, closing.stop⟩ p .absent (some filter),
      (Rest.tail _ _).trans ((Rest.tail _ _).trans ((Rest.tail _ r).trans rest)))
  | ⟨.keyword .notWord, _⟩ :: ⟨.identifier "exists", extent⟩ :: r =>
    pure (.existence ⟨p.extent.start, extent.stop⟩ p .absent none,
      (Rest.tail _ _).trans (.tail _ r))
  | ts => uncounted (Grammar.comparison b (.path p) ts)

/-- A comparison or an existence test. -/
def leaf : (ts : Tokens) → CountedReading Expression ts
  | ⟨.identifier name, extent⟩ :: ⟨.symbol .leftParen, paren⟩ :: r => do
    let (operand, s) ← term b (⟨.identifier name, extent⟩ :: ⟨.symbol .leftParen, paren⟩ :: r)
    let (e, rest) ← uncounted (Grammar.comparison b operand s.val)
    pure (e, s.trans rest)
  | ts => do
    let (p, s) ← uncounted (Grammar.path b ts)
    let (e, rest) ← behindPath b inside p s.val
    pure (e, s.trans rest)

/-! ## Expressions -/

/-- An operand of a conjunction. -/
def primary : (ts : Tokens) → CountedReading Expression ts
  | ⟨.keyword .allWord, extent⟩ :: r => pure (.all extent, .tail _ r)
  | ⟨.keyword .noneWord, extent⟩ :: r => pure (.none extent, .tail _ r)
  | ⟨.symbol .leftParen, extent⟩ :: r => do
    let ((inner, closing), rest) ← bracketed b inside extent.start .rightParen .closingParen r
    pure (.group ⟨extent.start, closing.stop⟩ inner, (Rest.tail _ r).trans rest)
  | ⟨.keyword .thisWord, extent⟩ :: r => leaf b inside (⟨.keyword .thisWord, extent⟩ :: r)
  | ⟨.identifier name, extent⟩ :: r => leaf b inside (⟨.identifier name, extent⟩ :: r)
  | ts => uncounted (.error (Grammar.unexpected b .operation ts))

/-- Items with a symbol between them, at least one. -/
def chain (separator : Symbol) (item : (ts : Tokens) → CountedReading α ts) (ts : Tokens) :
    CountedReading (α × List α) ts := do
  let (first, ⟨rest, h⟩) ← item ts
  match rest, h with
  | t :: r, h =>
    if t.value = .symbol separator then
      let ((second, others), s) ← chain separator item r
      pure ((first, second :: others), (Rest.behind h).trans s)
    else pure ((first, []), ⟨t :: r, h⟩)
  | [], h => pure ((first, []), ⟨[], h⟩)
termination_by ts.length
decreasing_by simp only [List.length_cons] at h; omega

/-- Operands with `&` between them. -/
def conjunction (ts : Tokens) : CountedReading Expression ts := do
  let ((first, others), rest) ← chain .ampersand (primary b inside) ts
  pure (Grammar.combine .conjunction first others, rest)

/-- Conjunctions with `|` between them. -/
def disjunction (ts : Tokens) : CountedReading Expression ts := do
  let ((first, others), rest) ← chain .pipe (conjunction b inside) ts
  pure (Grammar.combine .disjunction first others, rest)

/-- An expression. Fewer tokens stand inside a bracket of it, however many are open. -/
def expression (ts : Tokens) : CountedReading Expression ts :=
  disjunction b (fun s =>
    if _h : s.length < ts.length then expression s
    else fun _ => guarded (.error .endless)) ts
termination_by ts.length

/-! ## The count -/

/-- Fewer tokens than the given number are read inside a bracket with one bracket more, as long as a
level is left. -/
inductive InsideCounts (depth bound : Nat) : Inside → Grammar.Inside → Prop
  | none (inside : Inside) (h : b.maxDepth ≤ depth) : InsideCounts depth bound inside .none
  | some {inside : Inside} {reader : (ts : Tokens) → Reading Expression ts}
      (h : depth < b.maxDepth)
      (reads : ∀ ts, ts.length < bound → Counts (depth + 1) (depth + 1) (inside ts) (reader ts)) :
      InsideCounts depth bound inside (.some reader)

section

variable {b inside} {depth bound : Nat} {levels : Grammar.Inside}
  (hinside : InsideCounts b depth bound inside levels)

include hinside

theorem bracketed_counts (position : Nat) (closing : Symbol) (expected : Expected) {ts : Tokens}
    (hts : ts.length < bound) :
    Counts depth depth (bracketed b inside position closing expected ts)
      (Grammar.bracketed b levels position closing expected ts) := by
  cases hinside with
  | none h => exact .refused h _
  | some h reads =>
    apply Counts.enter h
    apply (reads ts hts).bind
    rintro ⟨e, ⟨s, hs⟩⟩
    apply (Counts.uncounted _).bind
    rintro ⟨extent, ⟨rest, h'⟩⟩
    exact .leave (.pure _)

theorem methodFilter_counts (position : Nat) {ts : Tokens} (hts : ts.length < bound) :
    Counts depth depth (methodFilter b inside position ts)
      (Grammar.methodFilter b levels position ts) := by
  fun_cases Grammar.methodFilter b levels position ts with
  | case1 extent r =>
    cases hinside with
    | none h => exact .refused h _
  | case2 extent r reader =>
    cases hinside with
    | some h reads => exact .enter h (.leave (.pure _))
  | case3 =>
    rw [methodFilter, Grammar.methodFilter]
    · apply (bracketed_counts hinside position .rightParen .closingParen hts).bind
      rintro ⟨⟨e, extent⟩, rest⟩
      exact .pure _
    all_goals assumption

theorem behindPath_counts (p : Path) {ts : Tokens} (hts : ts.length ≤ bound) :
    Counts depth depth (behindPath b inside p ts) (Grammar.behindPath b levels p ts) := by
  fun_cases Grammar.behindPath b levels p ts with
  | case1 paren r htest =>
    rw [behindPath, Grammar.behindPath, htest]
    exact .uncounted _
  | case2 paren r test htest hparent =>
    rw [behindPath, Grammar.behindPath, htest]
    dsimp only
    rw [hparent]
    exact .uncounted _
  | case3 paren r test htest navigation hparent =>
    rw [behindPath, Grammar.behindPath, htest]
    dsimp only
    rw [hparent]
    apply (methodFilter_counts hinside p.last.extent.start hts).bind
    rintro ⟨⟨filter, closing⟩, ⟨rest, h⟩⟩
    exact .pure _
  | case4 extent r => exact .pure _
  | case5 extent extent' extent'' r =>
    have hr : r.length < bound := by
      simp only [List.length_cons] at hts
      omega
    apply (bracketed_counts hinside extent'.stop .rightBrace .closingBrace hr).bind
    rintro ⟨⟨filter, closing⟩, ⟨rest, h⟩⟩
    exact .pure _
  | case6 =>
    rw [behindPath, Grammar.behindPath]
    · exact .pure _
    all_goals assumption
  | case7 =>
    rw [behindPath, Grammar.behindPath]
    · exact .uncounted _
    all_goals assumption

theorem leaf_counts {remaining : Nat} (hdepth : depth + remaining = b.maxDepth) {ts : Tokens}
    (hts : ts.length ≤ bound) :
    Counts depth depth (leaf b inside ts) (Grammar.leaf b remaining levels ts) := by
  fun_cases Grammar.leaf b remaining levels ts with
  | case1 name extent paren r =>
    apply (term_counts b hdepth _).bind
    rintro ⟨operand, ⟨s, h⟩⟩
    apply (Counts.uncounted _).bind
    rintro ⟨e, ⟨rest, h'⟩⟩
    exact .pure _
  | case2 =>
    rw [leaf, Grammar.leaf]
    · apply (Counts.uncounted _).bind
      rintro ⟨p, ⟨s, h⟩⟩
      apply (behindPath_counts hinside p (Nat.le_trans (Nat.le_of_lt h) hts)).bind
      rintro ⟨e, ⟨rest, h'⟩⟩
      exact .pure _
    all_goals assumption

theorem primary_counts {remaining : Nat} (hdepth : depth + remaining = b.maxDepth) {ts : Tokens}
    (hts : ts.length ≤ bound) :
    Counts depth depth (primary b inside ts) (Grammar.primary b remaining levels ts) := by
  fun_cases Grammar.primary b remaining levels ts with
  | case1 extent r => exact .pure _
  | case2 extent r => exact .pure _
  | case3 extent r =>
    apply (bracketed_counts hinside extent.start .rightParen .closingParen hts).bind
    rintro ⟨⟨inner, closing⟩, ⟨rest, h⟩⟩
    exact .pure _
  | case4 extent r => exact leaf_counts hinside hdepth hts
  | case5 name extent r => exact leaf_counts hinside hdepth hts
  | case6 =>
    rw [primary, Grammar.primary]
    · exact .uncounted _
    all_goals assumption

omit hinside

theorem chain_counts {separator : Symbol} {item : (ts : Tokens) → CountedReading α ts}
    {reader : (ts : Tokens) → Reading α ts}
    (hitem : ∀ ts, ts.length ≤ bound → Counts depth depth (item ts) (reader ts)) {ts : Tokens}
    (hts : ts.length ≤ bound) :
    Counts depth depth (chain separator item ts) (Grammar.chain separator reader ts) := by
  -- The induction is on the number of tokens: what an item leaves is shorter, but no part of `ts`.
  obtain ⟨n, hn⟩ : ∃ n, ts.length = n := ⟨_, rfl⟩
  induction n using Nat.strongRecOn generalizing ts with
  | _ n ih =>
    rw [chain, Grammar.chain]
    apply (hitem ts hts).bind
    rintro ⟨first, ⟨behind, hlt⟩⟩
    cases behind with
    | nil => exact .pure _
    | cons t r =>
      dsimp only
      by_cases hseparator : t.value = .symbol separator
      · rw [if_pos hseparator, if_pos hseparator]
        simp only [List.length_cons] at hlt
        have hr : r.length ≤ bound := by omega
        apply (ih r.length (by omega) hr rfl).bind
        rintro ⟨⟨second, others⟩, ⟨s, hs⟩⟩
        exact .pure _
      · rw [if_neg hseparator, if_neg hseparator]
        exact .pure _

include hinside

theorem disjunction_counts {remaining : Nat} (hdepth : depth + remaining = b.maxDepth)
    {ts : Tokens} (hts : ts.length ≤ bound) :
    Counts depth depth (disjunction b inside ts) (Grammar.disjunction b remaining levels ts) := by
  have hconjunction : ∀ ts : Tokens, ts.length ≤ bound →
      Counts depth depth (conjunction b inside ts) (Grammar.conjunction b remaining levels ts) := by
    intro ts hts
    apply (chain_counts (fun _ => primary_counts hinside hdepth) hts).bind
    rintro ⟨⟨first, others⟩, rest⟩
    exact .pure _
  apply (chain_counts hconjunction hts).bind
  rintro ⟨⟨first, others⟩, rest⟩
  exact .pure _

end

/-- An expression is read with as many brackets open as the limit is above the levels left. -/
theorem expression_counts {depth levels : Nat} (hdepth : depth + levels = b.maxDepth)
    (ts : Tokens) :
    Counts depth depth (expression b ts) (Grammar.expression b levels ts) := by
  induction levels generalizing depth ts with
  | zero =>
    rw [expression, Grammar.expression]
    exact disjunction_counts (.none _ (by omega)) hdepth (Nat.le_refl _)
  | succ levels ih =>
    rw [expression, Grammar.expression]
    refine disjunction_counts (.some (by omega) ?_) hdepth (Nat.le_refl _)
    intro s hs
    rw [dif_pos hs]
    exact ih (by omega) s

/-! ## Texts -/

/-- The expression that tokens make up, with nothing behind it. No bracket is open in front. -/
def ofTokens (ts : Tokens) : Run ParseError Expression := do
  let ((e, ⟨rest, _⟩), _) ← expression b ts 0
  match rest with
  | [] => .ok e
  | _ => fail (Grammar.unexpected b .continuation rest)

theorem ofTokens_eq (ts : Tokens) : ofTokens b ts = regular (Expression.ofTokens b ts) := by
  rw [ofTokens, expression_counts b (Nat.zero_add b.maxDepth) ts, Expression.ofTokens]
  cases Grammar.expression b b.maxDepth ts with
  | error e => rfl
  | ok reading =>
    obtain ⟨e, ⟨rest, h⟩⟩ := reading
    cases rest with
    | nil => rfl
    | cons t r => rfl

/-- The expression that a text writes, nested at most `maxDepth` deep. -/
def parse (maxDepth : Nat) (source : String) : Run ParseError Expression := do
  let tokens ← tokenize source
  ofTokens ⟨Text.utf8Length source.toList, maxDepth⟩ tokens

theorem parse_eq (maxDepth : Nat) (source : String) :
    parse maxDepth source = regular (Expression.parse maxDepth source) :=
  regular_bind (tokenize_eq source) fun tokens => ofTokens_eq _ tokens

end Criteria.Checked
