import Criteria.Proofs.ErrorKinds
import Criteria.Proofs.Language.ErrorPlaces
import Criteria.Proofs.Report.Lines

/-! # What is underlined

An excerpt shows one line without the carriage returns at its end, or exactly a part of the source.
The underline of a part is the part. The underline of a line starts at the error and is as wide as
what the error is about, whether or not this stands on the line. It leaves the line for a token over
several lines, and for what stands at the end of a line (`ParseError.Overruns`), and for nothing
else (`underline_fits_iff`).
-/

set_option autoImplicit false

namespace Criteria

open Number Text

/-! ## Lines -/

/-- From here to the end of the line there is nothing but carriage returns. -/
def LineEnds (cs : List Char) : Prop := ∀ c ∈ cs.takeWhile (· != '\n'), c = '\r'

instance (cs : List Char) : Decidable (LineEnds cs) :=
  List.decidableBAll (· = '\r') (cs.takeWhile (· != '\n'))

theorem not_lineEnds_of_not_isBreak {c : Char} (h : isBreak c = false) (r : List Char) :
    ¬LineEnds (c :: r) := by
  rw [isBreak_eq_false] at h
  intro hends
  refine h.2 (hends c ?_)
  rw [List.takeWhile_cons_of_pos (by simpa using h.1)]
  exact List.mem_cons_self

theorem length_dropFinalReturns_le (cs : List Char) :
    (dropFinalReturns cs).length ≤ cs.length := by
  have hle : (cs.reverse.dropWhile (· == '\r')).length ≤ cs.reverse.length :=
    (List.dropWhile_sublist _).length_le
  rw [List.length_reverse] at hle
  rw [dropFinalReturns, List.length_reverse]
  exact hle

/-- Without the carriage returns at its end a text goes on behind its front if there is anything
else behind it. -/
theorem length_lt_dropFinalReturns_append (front back : List Char) :
    front.length < (dropFinalReturns (front ++ back)).length ↔ ¬∀ c ∈ back, c = '\r' := by
  have hnone : back.reverse.dropWhile (· == '\r') = [] ↔ ∀ c ∈ back, c = '\r' := by
    simp [List.dropWhile_eq_nil_iff]
  rw [dropFinalReturns, List.reverse_append, List.dropWhile_append, List.length_reverse, ← hnone]
  by_cases hback : back.reverse.dropWhile (· == '\r') = []
  · have hle := (List.dropWhile_sublist (· == '\r') (l := front.reverse)).length_le
    simp only [hback, List.isEmpty_nil, if_true, not_true_eq_false, iff_false, not_lt]
    simpa using hle
  · have hpos := List.length_pos_iff.2 hback
    simp only [List.isEmpty_iff, hback, if_false, not_false_eq_true, iff_true, List.length_append,
      List.length_reverse]
    omega

/-- A line ends in front of its line feed. -/
theorem length_takeWhile_lt {init : List Char} (h : '\n' ∈ init) (rest : List Char) :
    ((init ++ rest).takeWhile (· != '\n')).length < init.length := by
  induction init with
  | nil => cases h
  | cons c init ih =>
    by_cases hc : c = '\n'
    · simp [hc]
    · have hmem : '\n' ∈ init := (List.mem_cons.1 h).resolve_left (Ne.symm hc)
      have hlt := ih hmem
      simpa [hc] using hlt

/-- A line goes on for as long as a text behind `lead` does, and one character more, if there is no
line feed in the text and the line does not end there. -/
theorem line_fits_iff (lead init rest : List Char) :
    lead.length + (init.length + 1) ≤
        (dropFinalReturns (lead ++ (init ++ rest).takeWhile (· != '\n'))).length ↔
      '\n' ∉ init ∧ ¬LineEnds rest := by
  by_cases hfeed : '\n' ∈ init
  · have hlt := length_takeWhile_lt hfeed rest
    have hle := length_dropFinalReturns_le (lead ++ (init ++ rest).takeWhile (· != '\n'))
    rw [List.length_append] at hle
    simp only [hfeed, not_true_eq_false, false_and, iff_false, not_le]
    omega
  · have hinit : ∀ c ∈ init, (c != '\n') = true := by
      intro c hc
      have hne : c ≠ '\n' := fun heq => hfeed (heq ▸ hc)
      simpa using hne
    have hlength := length_lt_dropFinalReturns_append (lead ++ init) (rest.takeWhile (· != '\n'))
    rw [List.takeWhile_append_of_pos hinit, ← List.append_assoc, LineEnds, ← hlength,
      List.length_append]
    simp only [hfeed, not_false_eq_true, true_and]
    omega

/-! ## Excerpts -/

namespace Excerpt

/-- The underline ends with the shown text, or up to `room` characters behind it. -/
def Fits (x : Excerpt) (room : Nat) : Prop := x.underline.2 ≤ x.text.toList.length + room

instance (x : Excerpt) (room : Nat) : Decidable (x.Fits room) :=
  inferInstanceAs (Decidable (_ ≤ _))

theorem ofRange_fits (source : List Char) (start stop : Nat) :
    (ofRange source start stop).Fits 0 := by
  simp [Fits, ofRange]

/-- The underline ends on the line exactly if nothing in front of its last character feeds the line,
and the line goes on there. -/
theorem ofPoint_fits_iff (front : List Char) {init rest : List Char} {width : Nat}
    (h : marked (front ++ (init ++ rest)) (utf8Length front) width = init.length + 1) :
    (ofPoint (front ++ (init ++ rest)) (utf8Length front) width).Fits 0 ↔
      '\n' ∉ init ∧ ¬LineEnds rest := by
  rw [ofPoint_append, Fits, h, String.toList_ofList, Nat.add_zero]
  exact line_fits_iff (lastLine front) init rest

/-- The underline of a part reaches the last character of the part. -/
theorem ofPoint_last_fits (front init : List Char) (last : Char) (back : List Char) :
    (ofPoint (front ++ (init ++ [last]) ++ back) (utf8Length front)
      (utf8Length (init ++ [last]))).Fits 0 ↔ '\n' ∉ init ∧ ¬LineEnds (last :: back) := by
  have hsplit : front ++ (init ++ [last]) ++ back = front ++ (init ++ last :: back) := by simp
  have hmarked := marked_append front (init ++ [last]) back
  have hlength : max 1 (init ++ [last]).length = init.length + 1 := by
    rw [List.length_append]
    exact Nat.max_eq_right (Nat.le_add_left _ _)
  rw [hlength, hsplit] at hmarked
  rw [hsplit]
  exact ofPoint_fits_iff front hmarked

/-- The underline of a part that ends on a line. -/
theorem ofPoint_part_fits {front init back : List Char} {last : Char} (h : isBreak last = false) :
    (ofPoint (front ++ (init ++ [last]) ++ back) (utf8Length front)
      (utf8Length (init ++ [last]))).Fits 0 ↔ '\n' ∉ init ++ [last] := by
  have hlast : '\n' ≠ last := by
    rintro rfl
    exact absurd h (by decide)
  rw [ofPoint_last_fits, List.mem_append, List.mem_singleton, or_iff_left hlast]
  exact and_iff_left (not_lineEnds_of_not_isBreak h back)

/-- The underline of a single character. -/
theorem ofPoint_one_fits (front rest : List Char) :
    (ofPoint (front ++ rest) (utf8Length front) 1).Fits 0 ↔ ¬LineEnds rest := by
  have hmarked : marked (front ++ ([] ++ rest)) (utf8Length front) 1 =
      ([] : List Char).length + 1 := marked_one _ _
  have hfits := ofPoint_fits_iff front hmarked
  simpa using hfits

/-- Behind the end of a text, the underline has room for one character, unless a carriage return is
cut off there. -/
theorem ofPoint_end_fits (source : List Char) :
    (ofPoint source (utf8Length source) 1).Fits 1 ↔ source.getLast? ≠ some '\r' := by
  have hpoint := ofPoint_append source [] 1
  rw [List.append_nil, marked_one] at hpoint
  rw [hpoint, Fits, String.toList_ofList, List.takeWhile_nil, List.append_nil,
    Nat.add_le_add_iff_right]
  cases source using List.reverseRecOn with
  | nil => simp [lastLine]
  | append_singleton cs c =>
    rw [lastLine_append_singleton, List.getLast?_concat]
    by_cases hc : c = '\n'
    · simp [hc]
    · have hlength := length_lt_dropFinalReturns_append (lastLine cs) [c]
      rw [List.forall_mem_singleton] at hlength
      rw [if_neg hc, ne_eq, Option.some.injEq, ← hlength, List.length_append]
      exact Iff.rfl

end Excerpt

/-! ## Errors of texts -/

namespace Language

/-- The characters behind its line that an error may underline: one at the end of the text. -/
def ParseError.room : ParseError → Nat
  | unexpectedEnd _ _ => 1
  | _ => 0

/-- Whether an error underlines more than there is on its line: about a token with a line feed, at
the end of a text whose last carriage return is not shown, or about what stands at the end of a
line, which is an escaped line break, or a bracket that is only opened on a later line. -/
def ParseError.Overruns (source : List Char) : ParseError → Prop
  | unexpectedToken _ _ extent => '\n' ∈ slice extent.start extent.stop source
  | unexpectedEnd _ _ => source.getLast? = some '\r'
  | invalidEscape _ position => LineEnds (dropBytes (position + 1) source)
  | nestingTooDeep _ position => LineEnds (dropBytes position source)
  | _ => False

instance (source : List Char) : (e : ParseError) → Decidable (e.Overruns source)
  | .unexpectedToken _ _ extent =>
    inferInstanceAs (Decidable ('\n' ∈ slice extent.start extent.stop source))
  | .unexpectedEnd _ _ => inferInstanceAs (Decidable (source.getLast? = some '\r'))
  | .invalidEscape _ position =>
    inferInstanceAs (Decidable (LineEnds (dropBytes (position + 1) source)))
  | .nestingTooDeep _ position => inferInstanceAs (Decidable (LineEnds (dropBytes position source)))
  | .unexpectedCharacter _ _ => inferInstanceAs (Decidable False)
  | .invalidInteger _ _ => inferInstanceAs (Decidable False)
  | .invalidFloat _ _ => inferInstanceAs (Decidable False)
  | .unclosedString _ => inferInstanceAs (Decidable False)

/-- The excerpt of an error underlines no more than it may exactly if the error is none of those. -/
def ParseError.FitsLine (source : List Char) (e : ParseError) : Prop :=
  (Excerpt.ofPoint source e.position e.width).Fits e.room ↔ ¬e.Overruns source

/-- An error about a part that ends where it also shows in the line. -/
theorem ParseError.fitsLine_of_part {front init back : List Char} {last : Char} {e : ParseError}
    (hlast : isBreak last = false) (hposition : e.position = utf8Length front)
    (hwidth : e.width = utf8Length (init ++ [last])) (hroom : e.room = 0)
    (h : e.Overruns (front ++ (init ++ [last]) ++ back) ↔ '\n' ∈ init ++ [last]) :
    e.FitsLine (front ++ (init ++ [last]) ++ back) := by
  rw [FitsLine, hposition, hwidth, hroom, h]
  exact Excerpt.ofPoint_part_fits hlast

/-- An error about an unbroken part. -/
theorem ParseError.fitsLine_of_unbroken {front part : List Char} (back : List Char)
    {e : ParseError} (hpart : Unbroken part) (hne : part ≠ [])
    (hposition : e.position = utf8Length front) (hwidth : e.width = utf8Length part)
    (hroom : e.room = 0)
    (h : ¬e.Overruns (front ++ (part ++ back))) : e.FitsLine (front ++ (part ++ back)) := by
  obtain ⟨c, r, hcons⟩ := List.exists_cons_of_ne_nil hne
  obtain ⟨init, last, rfl, hlast⟩ := hpart.exists_last hcons
  rw [← List.append_assoc] at h ⊢
  exact fitsLine_of_part hlast hposition hwidth hroom (iff_of_false h hpart.lineFeed_not_mem)

theorem Malformed.fitsLine {front rest : List Char} {e : ParseError} (h : Malformed rest e)
    (hposition : e.position = utf8Length front) : e.FitsLine (front ++ rest) := by
  cases h with
  | @character c r _ hblank =>
    have hpart : Unbroken [c] := unbroken_cons.2 ⟨isBreak_of_not_isBlank hblank, unbroken_nil⟩
    exact ParseError.fitsLine_of_unbroken r hpart (List.cons_ne_nil c []) hposition
      (by simp [ParseError.width]) rfl not_false
  | integer hspan =>
    exact ParseError.fitsLine_of_unbroken _ (Numeral.unbroken_of_span? hspan)
      (Numeral.span?_ne_nil hspan) hposition (by simp [ParseError.width]) rfl not_false
  | float hspan =>
    exact ParseError.fitsLine_of_unbroken _ (Numeral.unbroken_of_span? hspan)
      (Numeral.span?_ne_nil hspan) hposition (by simp [ParseError.width]) rfl not_false
  | @escape c r position _ =>
    -- The backslash stands on the line of the error, the character behind it may not.
    have hbehind : dropBytes (position + 1) (front ++ '\\' :: c :: r) = c :: r := by
      have hlength : position + 1 = utf8Length (front ++ ['\\']) := by
        rw [utf8Length_append, ← hposition]
        rfl
      rw [hlength, List.append_cons front '\\' (c :: r), dropBytes_utf8Length]
    have hfits := Excerpt.ofPoint_last_fits front ['\\'] c r
    have hsplit : front ++ (['\\'] ++ [c]) ++ r = front ++ '\\' :: c :: r := by simp
    have hwidth : utf8Length (['\\'] ++ [c]) = 1 + c.utf8Size := by
      rw [utf8Length_append]
      rfl
    have hbackslash : '\n' ∉ ['\\'] := by decide
    rw [hsplit, hwidth] at hfits
    rw [ParseError.FitsLine, hposition, ParseError.Overruns, hbehind]
    exact hfits.trans (and_iff_right hbackslash)
  | @unclosed quote r _ hquote =>
    have hpart : Unbroken [quote] := by
      rcases hquote with rfl | rfl <;> decide
    have hwidth : 1 = utf8Length [quote] := by
      rcases hquote with rfl | rfl <;> decide
    exact ParseError.fitsLine_of_unbroken r hpart (List.cons_ne_nil quote []) hposition
      hwidth rfl not_false

theorem ErrorAmong.fitsLine {source : List Char} {ts : List (Located Token)} {e : ParseError}
    (hts : tokensAt 0 source = .ok ts) (h : ErrorAmong (utf8Length source) ts e) :
    e.FitsLine source := by
  have hopened : ∀ most position, IsBoundary source position →
      ParseError.FitsLine source (.nestingTooDeep most position) := by
    rintro most position ⟨front, rest, rfl, rfl⟩
    rw [ParseError.FitsLine, ParseError.Overruns, dropBytes_utf8Length]
    exact Excerpt.ofPoint_one_fits front rest
  cases h with
  | @token t ht found _ expected =>
    obtain ⟨front, word, rest, rfl, hword, hextent⟩ := (tokensAt_iff.1 hts).exists_lexes ht
    obtain ⟨init, last, rfl, hlast⟩ := hword.exists_last
    rw [Nat.zero_add, Nat.zero_add] at hextent
    have hslice : slice t.extent.start t.extent.stop (front ++ (init ++ [last]) ++ rest) =
        init ++ [last] := by
      rw [hextent]
      exact slice_append front _ rest
    refine ParseError.fitsLine_of_part hlast ?_ ?_ rfl ?_
    · rw [ParseError.position, hextent]
    · rw [ParseError.width, hextent, Extent.width, utf8Length_append front, Nat.add_sub_cancel_left]
    · rw [ParseError.Overruns, hslice]
  | ended expected => exact Excerpt.ofPoint_end_fits source
  | opened ht most => exact hopened _ _ (tokensAt_boundary hts ht).1
  | behind ht most => exact hopened _ _ (tokensAt_boundary hts ht).2

theorem fitsLine_of_parse {maxDepth : Nat} {source : String} {e : ParseError}
    (h : Expression.parse maxDepth source = .error e) : e.FitsLine source.toList := by
  rcases bind_eq_error.1 h with h | ⟨ts, hts, h⟩
  · obtain ⟨front, rest, hsplit, hposition, hrest⟩ := malformed_of_tokensAt h
    rw [Nat.zero_add] at hposition
    rw [hsplit]
    exact hrest.fitsLine hposition
  · exact (ofTokens_locates _ h).fitsLine hts

end Language

namespace Cause

/-- The characters behind its line that an error may underline. -/
def room : Cause → Nat
  | rejected _ => 0
  | unparsable e => e.room

/-- Whether an error underlines more than there is on its line. -/
def Overruns (source : List Char) : Cause → Prop
  | rejected _ => False
  | unparsable e => e.Overruns source

end Cause

namespace Language

/-- The excerpt of an error of a text underlines forwards, and no more than it shows, or one
character more at the end of the text, unless it is one of the errors that leave their line. -/
theorem underline_fits_iff {c : Catalog} {limits : Limits} {rootType source : String}
    {error : CompileError} (h : compile c limits rootType source = .error error) :
    ∃ x, error.location = .source x ∧ x.underline.1 ≤ x.underline.2 ∧
      (x.Fits error.cause.room ↔ ¬error.cause.Overruns source.toList) := by
  rcases compile_eq_error h with ⟨e, hparse, rfl⟩ | ⟨-, r, extent, -, rfl⟩
  · exact ⟨_, rfl, Nat.le_add_right _ _, fitsLine_of_parse hparse⟩
  · exact ⟨_, rfl, Nat.zero_le _, iff_of_true (Excerpt.ofRange_fits _ _ _) not_false⟩

theorem shoelessError_underline :
    ∃ x, shoelessError.location = .source x ∧ x.underline.1 ≤ x.underline.2 ∧
      (x.Fits shoelessError.cause.room ↔ ¬shoelessError.cause.Overruns shoelessText.toList) :=
  underline_fits_iff compile_shoelessText

/-- A bracket behind `not exists` is too deep at the end of the line in front of it. -/
example : Expression.parse 0 "this.manager not exists\n\x7ball\x7d" =
      .error (.nestingTooDeep 0 23) ∧
    Excerpt.ofPoint "this.manager not exists\n\x7ball\x7d".toList 23 1 =
      ⟨1, 24, "this.manager not exists", (23, 24)⟩ :=
  ⟨by cbv, by cbv⟩

/-- A string over two lines behind a text that is complete. -/
def brokenContinuation : String := "all 'a\nb'"

/-- The string that does not belong there is underlined over five characters, three of them behind
the line. -/
theorem brokenContinuation_overruns :
    ∃ error x, compile staff {} "Person" brokenContinuation = .error error ∧
      error.location = .source x ∧ x.text = "all 'a" ∧ x.underline = (4, 9) ∧
      error.cause.room = 0 ∧ ¬x.Fits 1 := by
  refine ⟨⟨.unparsable (.unexpectedToken (.string "a\nb") .continuation ⟨4, 9⟩),
    .source ⟨1, 5, "all 'a", (4, 9)⟩⟩, _, ?_, rfl, rfl, rfl, rfl, ?_⟩
  · cbv
  · decide

end Language

end Criteria
