import Criteria.Proofs.Language.Misreadings
import Criteria.Proofs.Language.Readers

/-! # Tokens tile their text

The tokens of a text stand one behind the other with nothing but blanks between them, and each of
them is what its own text is cut into (`Tiles`). A text that has no tokens is wrong in one of four
ways, and what is wrong is a part of it (`Misread`). It is met behind a text that has tokens, and
these are the ones read so far (`Interrupted`).
-/

set_option autoImplicit false

namespace Criteria.Language

open Number Text

/-! ## Errors in texts -/

/-- The names of the errors of texts that are not cut into tokens. -/
def ParseError.lexicalNames : List String :=
  ["UnexpectedCharacter", "InvalidLiteral", "InvalidEscape", "UnclosedString"]

/-- An error that is met where a text is cut into tokens. The text starts at the position, and the
error is about a part of it. -/
structure Misread (position : Nat) (cs : List Char) (e : ParseError) : Prop where
  name : e.name ∈ ParseError.lexicalNames
  part : ∃ front part back, cs = front ++ part ++ back ∧ e.position = position + utf8Length front ∧
    e.width = utf8Length part

namespace Misread

variable {position : Nat} {e : ParseError}

theorem behind (front : List Char) {cs : List Char}
    (h : Misread (position + utf8Length front) cs e) : Misread position (front ++ cs) e := by
  obtain ⟨between, part, back, rfl, hposition, hwidth⟩ := h.part
  exact ⟨h.name, front ++ between, part, back, by simp, by simp [hposition, Nat.add_assoc], hwidth⟩

/-- An error about the front of a text. -/
theorem front (part : List Char) {back : List Char}
    (hname : e.name ∈ ParseError.lexicalNames) (hposition : e.position = position)
    (hwidth : e.width = utf8Length part) :
    Misread position (part ++ back) e :=
  ⟨hname, [], part, back, rfl, hposition, hwidth⟩

/-- What the error is about starts and ends where the text may be cut. -/
theorem boundary {cs : List Char} (h : Misread 0 cs e) :
    IsBoundary cs e.position ∧ IsBoundary cs (e.position + e.width) := by
  obtain ⟨front, part, back, rfl, hposition, hwidth⟩ := h.part
  rw [hposition, hwidth, Nat.zero_add, ← utf8Length_append]
  constructor
  · rw [List.append_assoc]
    exact .append front (part ++ back)
  · exact .append (front ++ part) back

end Misread

/-- What stands at the place of an error is as wide as the error. -/
theorem Malformed.misread {cs : List Char} {e : ParseError} (h : Malformed cs e) :
    Misread e.position cs e := by
  have hname : e.name ∈ ParseError.lexicalNames := by
    cases h <;> simp [ParseError.name, ParseError.lexicalNames]
  cases h with
  | @character c r _ _ => exact .front [c] hname rfl (by simp [ParseError.width])
  | integer _ => exact .front _ hname rfl (by simp [ParseError.width])
  | float _ => exact .front _ hname rfl (by simp [ParseError.width])
  | @escape c r _ _ =>
    exact .front ['\\', c] hname rfl (by simp [ParseError.width]; decide)
  | @unclosed quote r _ hquote =>
    have hwidth : 1 = utf8Length [quote] := by
      rcases hquote with rfl | rfl <;> decide
    exact .front [quote] hname rfl hwidth

theorem tokensAt_error {position : Nat} {cs : List Char} {e : ParseError}
    (h : tokensAt position cs = .error e) : Misread position cs e := by
  obtain ⟨front, rest, rfl, hposition, hrest⟩ := malformed_of_tokensAt h
  have herror := hrest.misread
  rw [hposition] at herror
  exact .behind front herror

/-! ## Tokens and the blanks between them -/

/-- The offset lies within the range. -/
def Extent.Covers (e : Extent) (offset : Nat) : Prop := e.start ≤ offset ∧ offset < e.stop

/-- A character that stands in no token is a blank. -/
theorem Cut.isBlank_of_not_covers {position : Nat} {cs : List Char} {ts : List (Located Token)}
    (h : Cut position cs ts) {front back : List Char} {c : Char} (hcs : cs = front ++ c :: back)
    (hout : ∀ t ∈ ts, ¬t.extent.Covers (position + utf8Length front)) : isBlank c = true := by
  induction h generalizing front with
  | nil => cases front <;> cases hcs
  | @blank position d cs ts hblank tail ih =>
    cases front with
    | nil =>
      cases hcs
      exact hblank
    | cons d' front =>
      cases hcs
      refine ih rfl fun t ht => ?_
      rw [Nat.add_assoc, ← utf8Length_cons]
      exact hout t ht
  | @lexeme position word rest t ts h tail ih =>
    rcases List.append_eq_append_iff.1 hcs with ⟨front', rfl, hrest⟩ | ⟨word', rfl, hword⟩
    · refine ih hrest fun u hu => ?_
      rw [Nat.add_assoc, ← utf8Length_append]
      exact hout u (List.mem_cons_of_mem _ hu)
    · cases word' with
      | nil =>
        have hrest : rest = [] ++ c :: back := by simpa using hword.symm
        refine ih hrest fun u hu => ?_
        have hout' := hout u (List.mem_cons_of_mem _ hu)
        simpa using hout'
      | cons d word' =>
        -- The character is one of the token's own.
        obtain rfl := (List.cons.inj hword).1
        refine absurd ?_ (hout _ List.mem_cons_self)
        have hc := c.utf8Size_pos
        constructor
        · exact Nat.le_add_right _ _
        · simp only [utf8Length_append, utf8Length_cons]
          omega

/-- A token is the only one of its own text. -/
theorem tokenize_slice_of_mem {source : String} {ts : List (Located Token)}
    (h : tokenize source = .ok ts) {t : Located Token} (ht : t ∈ ts) :
    tokenize (String.ofList (slice t.extent.start t.extent.stop source.toList)) =
      .ok [⟨t.value, ⟨0, t.extent.width⟩⟩] := by
  obtain ⟨us, vs, rfl⟩ := List.append_of_mem ht
  have hrun : tokensAt 0 source.toList = .ok (us ++ [t] ++ vs) := by
    rw [List.append_assoc]
    exact h
  obtain ⟨front, text, back, hpart, htext⟩ := exists_part_of_run hrun .single
  have hcut : Cut (t.extent.start + 0) text [t] := tokensAt_iff.1 htext
  obtain ⟨ts', hcut', hmoved⟩ := hcut.exists_moved
  obtain ⟨t', rfl, ht'⟩ := List.map_eq_singleton_iff.1 hmoved.symm
  have hextent : t'.extent = ⟨0, t.extent.width⟩ := by
    have hstart : t.extent.start + t'.extent.start = t.extent.start :=
      congrArg (fun t => t.extent.start) ht'
    have hstop : t.extent.start + t'.extent.stop = t.extent.stop :=
      congrArg (fun t => t.extent.stop) ht'
    have hwidth : t'.extent.stop = t.extent.width := by
      rw [Extent.width]
      omega
    exact congrArg₂ Extent.mk (Nat.add_eq_left.1 hstart) hwidth
  have hvalue : t'.value = t.value := congrArg (fun t => t.value) ht'
  rw [hpart.start, hpart.stop, hpart.split, slice_append, tokenize, String.toList_ofList,
    tokensAt_iff.2 hcut', ← hvalue, ← hextent]

/-- Tokens of a source with nothing but blanks between them. -/
structure Tiles (source : String) (ts : List (Located Token)) : Prop where
  nonempty : ∀ t ∈ ts, t.extent.start < t.extent.stop
  ordered : ts.Pairwise fun t u => t.extent.stop ≤ u.extent.start
  boundary : ∀ t ∈ ts, IsBoundary source.toList t.extent.start ∧
    IsBoundary source.toList t.extent.stop
  blank : ∀ front c back, source.toList = front ++ c :: back →
    (∀ t ∈ ts, ¬t.extent.Covers (utf8Length front)) → isBlank c = true
  alone : ∀ t ∈ ts,
    tokenize (String.ofList (slice t.extent.start t.extent.stop source.toList)) =
      .ok [⟨t.value, ⟨0, t.extent.width⟩⟩]

theorem tiles_of_tokenize {source : String} {ts : List (Located Token)}
    (h : tokenize source = .ok ts) : Tiles source ts where
  nonempty t ht := tokensAt_nonempty h ht
  ordered := (tokensAt_ordered h).imp fun hbefore => hbefore.apart
  boundary t ht := tokensAt_boundary h ht
  blank front c back hsource hout := by
    refine (tokensAt_iff.1 h).isBlank_of_not_covers hsource fun t ht => ?_
    rw [Nat.zero_add]
    exact hout t ht
  alone t ht := tokenize_slice_of_mem h ht

/-! ## Where reading stops -/

/-- The error of a source that stops being read in front of `rest`: the text up to there has the
tokens that are read, and the error is what the readers meet next. -/
structure Interrupted (source : String) (e : ParseError) (front rest : List Char)
    (read : List (Located Token)) : Prop where
  split : source.toList = front ++ rest
  left : rest ≠ []
  tokens : tokenize (String.ofList front) = .ok read
  halts : ∃ last stop, Readers.Halts ⟨0, source.toList⟩ read last stop ∧
    last.unblanked = ⟨utf8Length front, rest⟩ ∧ stop.fault = .language e

theorem exists_interrupted {source : String} {e : ParseError} (h : tokenize source = .error e) :
    ∃ front rest read, Interrupted source e front rest read := by
  obtain ⟨read, last, stop, hhalts, -⟩ := Readers.exists_halts ⟨0, source.toList⟩
  have hleft : last.unblanked.ahead ≠ [] := by
    intro hleft
    have hok := hhalts.tokenize_eq_ok hleft
    rw [h] at hok
    cases hok
  obtain ⟨e', herror, hfault⟩ := hhalts.tokenize_eq_error hleft
  obtain rfl : e = e' := Except.error.inj (h.symm.trans herror)
  obtain ⟨front, hsplit, hposition, hcut⟩ := hhalts.reads.cut
  refine ⟨front, last.unblanked.ahead, read, hsplit, hleft, ?_, last, stop, hhalts, ?_, hfault⟩
  · rw [tokenize, String.toList_ofList]
    exact tokensAt_iff.2 hcut
  · rw [← Nat.zero_add (utf8Length front), ← hposition]

/-- Tokens tile the source. Without tokens, the source is wrong in one of four ways, behind text
that has tokens, and the range of the error is a part of it. Readers that are tried one after the
other come to the same result, so none of them is left with no more to report than a place. -/
theorem tokenize_tiles (source : String) :
    Readers.tokenize source = (tokenize source).mapError .language ∧
      match tokenize source with
      | .ok ts => Tiles source ts
      | .error e => e.name ∈ ParseError.lexicalNames ∧
          (∃ front rest read, Interrupted source e front rest read) ∧
          IsBoundary source.toList e.position ∧
          IsBoundary source.toList (e.position + e.width) := by
  refine ⟨Readers.tokenize_eq source, ?_⟩
  split
  · rename_i h
    exact tiles_of_tokenize h
  · rename_i h
    have herror : Misread 0 source.toList _ := tokensAt_error h
    exact ⟨herror.name, exists_interrupted h, herror.boundary⟩

/-- A point without digits behind it is no part of a numeral. -/
example : (tokenize "1.x").map (·.map fun t => (t.value.text, t.extent)) =
    .ok [("1", ⟨0, 1⟩), (".", ⟨1, 2⟩), ("x", ⟨2, 3⟩)] := by
  cbv

end Criteria.Language
