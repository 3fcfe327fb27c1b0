import Criteria.Proofs.Language.Faults
import Criteria.Proofs.Report.Lines
import Criteria.Report.Diagnostic

/-! # The spans of diagnostics

A diagnostic has no range of the source to go by. It takes the line and column of an excerpt for the
start, and the width of the underline for the width of its span. For an error that shows a part of
a source, the start is that of the part, and the end is that of the part as long as the part stands
on a single line (`ofError_span_of_part`). A leaf may be laid out over several lines, or compare to
a string that is, and its span then ends in the wrong place (`diagnostic_span_exact`).
-/

set_option autoImplicit false

namespace Criteria

open Text

/-! ## Positions behind parts -/

/-- The end of a part of a source is as many columns behind its start as the part has characters,
if it stands on a single line; otherwise it lies on another line. -/
theorem Position.ofOffset_part (front text back : List Char) :
    ofOffset (front ++ text ++ back) (utf8Length (front ++ text)) =
        ⟨front.count '\n', (lastLine front).length + text.length⟩ ↔ '\n' ∉ text := by
  rw [ofOffset_append, List.count_append, lastLine_append]
  constructor
  · intro h hfeed
    have hline := congrArg Position.line h
    have hcount := List.count_pos_iff.2 hfeed
    dsimp only at hline
    omega
  · intro hfeed
    rw [if_neg hfeed, List.count_eq_zero_of_not_mem hfeed, List.length_append, Nat.add_zero]

/-! ## Spans of parts -/

/-- An error that shows a part of a source is placed at the start of the part, over as many columns
as the part has characters. -/
theorem Diagnostic.ofError_part (cause : Cause) (front text back : List Char) :
    (ofError ⟨cause, .source (.ofRange (front ++ text ++ back) (utf8Length front)
      (utf8Length (front ++ text)))⟩).location =
        some ⟨⟨⟨front.count '\n', (lastLine front).length⟩,
          ⟨front.count '\n', (lastLine front).length + text.length⟩⟩,
          some (String.ofList text), some (0, text.length)⟩ := by
  rw [Excerpt.ofRange_append]
  rfl

namespace Language

/-- Where an error is that shows a part of a source: at the start of this part, and up to its end
unless the part goes on to another line. -/
structure ShowsPart (source : List Char) (extent : Extent) (text : List Char)
    (place : SourceLocation) : Prop where
  shown : place.sourceText = some (String.ofList text)
  start : place.span.start = .ofOffset source extent.start
  width : place.span.stop = ⟨place.span.start.line, place.span.start.column + text.length⟩
  agrees : place.span = .ofOffsets source extent.start extent.stop ↔ '\n' ∉ text

theorem ofError_span_of_part {source front text back : List Char} {extent : Extent}
    (h : Part source extent front text back) (r : Rejection) :
    ∃ place, (Diagnostic.ofError (r.inSource source extent)).location = some place ∧
      ShowsPart source extent text place := by
  obtain ⟨rfl, hstart, hstop⟩ := h
  have hfront : Position.ofOffset (front ++ text ++ back) (utf8Length front) =
      ⟨front.count '\n', (lastLine front).length⟩ := by
    rw [List.append_assoc, Position.ofOffset_append]
  rw [Rejection.inSource, hstart, hstop]
  refine ⟨_, Diagnostic.ofError_part (.rejected r) front text back, rfl, ?_, rfl, ?_⟩
  · rw [hstart, hfront]
  · rw [← Position.ofOffset_part front text back, Span.ofOffsets, hstart, hstop, hfront,
      Span.mk.injEq, and_iff_right rfl]
    exact eq_comm

/-! ## Spans of leaves -/

/-- The diagnostic of a text that parses but does not compile shows the first leaf that is
rejected. Its span starts where this leaf does, and is the range of the leaf exactly if the leaf
stands on a single line. -/
theorem diagnostic_span_exact {c : Catalog} {limits : Limits} {rootType source : String}
    {e : Expression} {error : CompileError} (hentity : ∃ entity, c.entity? rootType = some entity)
    (hparse : Expression.parse limits.maxDepth source = .ok e)
    (h : compile c limits rootType source = .error error) :
    ∃ before l behind fault front text back place,
      e.leaves = before ++ l :: behind ∧
      (∀ m ∈ before, ∃ p, m.compile c limits (Scope.root rootType) = .ok p) ∧
      l.Fails c limits (Scope.root rootType) fault ∧
      error.cause = .rejected fault.rejection ∧
      Part source.toList l.leaf.extent front text back ∧
      (Diagnostic.ofError error).location = some place ∧
      ShowsPart source.toList l.leaf.extent text place := by
  obtain ⟨fault, hfault, rfl⟩ := exists_fault_of_compile hentity hparse h
  obtain ⟨before, l, behind, hleaves, hbefore, hl⟩ := e.toPredicate_firstFault hfault
  have hmem : l ∈ e.leaves := by
    rw [hleaves]
    simp
  obtain ⟨front, text, back, hwritten⟩ := exists_written hparse hmem
  obtain ⟨place, hlocation, hplace⟩ := ofError_span_of_part hwritten.part fault.rejection
  rw [← hl.extent] at hlocation
  exact ⟨before, l, behind, fault, front, text, back, place, hleaves, hbefore, hl, rfl,
    hwritten.part, hlocation, hplace⟩

theorem shoelessError_span :
    ∃ before l behind fault front text back place,
      shoeless.leaves = before ++ l :: behind ∧
      (∀ m ∈ before, ∃ p, m.compile staff {} (Scope.root "Person") = .ok p) ∧
      l.Fails staff {} (Scope.root "Person") fault ∧
      shoelessError.cause = .rejected fault.rejection ∧
      Part shoelessText.toList l.leaf.extent front text back ∧
      (Diagnostic.ofError shoelessError).location = some place ∧
      ShowsPart shoelessText.toList l.leaf.extent text place :=
  diagnostic_span_exact ⟨_, rfl⟩ parse_shoelessText compile_shoelessText

/-- An age that is compared on the next line. -/
def brokenComparison : String := "this.age\n> 'x'"

/-- The tree of the age that is compared on the next line. -/
def brokenExpression : Expression :=
  .binary ⟨0, 14⟩ (.path ⟨⟨.this, ⟨0, 4⟩⟩, [], ⟨"age", ⟨5, 8⟩⟩⟩) .greaterThan
    ⟨.string "x", ⟨11, 14⟩⟩

/-- The comparison ends behind the fifth character of the second line, and its span behind the
fourteenth of the first one, which has eight. -/
theorem brokenComparison_span :
    Expression.parse 64 brokenComparison = .ok brokenExpression ∧
      brokenExpression.leaves.map (·.leaf.extent) = [⟨0, 14⟩] ∧
      ∃ error place, compile staff {} "Person" brokenComparison = .error error ∧
        (Diagnostic.ofError error).location = some place ∧
        place.span = ⟨⟨0, 0⟩, ⟨0, 14⟩⟩ ∧
        Span.ofOffsets brokenComparison.toList 0 14 = ⟨⟨0, 0⟩, ⟨1, 5⟩⟩ ∧
        place.span ≠ Span.ofOffsets brokenComparison.toList 0 14 := by
  have hparse : Expression.parse 64 brokenComparison = .ok brokenExpression := by cbv
  have hcompile : compile staff {} "Person" brokenComparison =
      .error ⟨.rejected (.wrongLiteral .integer (.string "x")),
        .source ⟨1, 1, brokenComparison, (0, 14)⟩⟩ := by cbv
  have hoffsets : Span.ofOffsets brokenComparison.toList 0 14 = ⟨⟨0, 0⟩, ⟨1, 5⟩⟩ := by cbv
  refine ⟨hparse, rfl, _, _, hcompile, rfl, rfl, hoffsets, ?_⟩
  rw [hoffsets]
  decide

end Language

end Criteria
