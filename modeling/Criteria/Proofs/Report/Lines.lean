import Criteria.Proofs.Language.Layout
import Mathlib.Data.List.DropRight

/-! # Lines of a source

The line around an offset is one of the parts that the line feeds of the source cut it into, and the
line number of the offset says which one (`getElem?_splitOn_append`). An excerpt of a line has the
character at the offset where its underline starts, unless this character is a line break
(`excerpt_shows_character`). No two places of a source where it may be cut have the same position,
and the positions are in the order of the places (`Position.ofOffset_before_iff`).
-/

set_option autoImplicit false

namespace Criteria

open Text

/-! ## Behind the last line feed -/

/-- What stands behind the last line feed of two texts: all of the second one, unless it has a line
feed of its own. -/
theorem lastLine_append (front text : List Char) :
    lastLine (front ++ text) = if '\n' ∈ text then lastLine text else lastLine front ++ text := by
  induction text using List.reverseRecOn with
  | nil => simp
  | append_singleton text c ih =>
    rw [← List.append_assoc, lastLine_append_singleton, lastLine_append_singleton, ih]
    by_cases hc : c = '\n'
    · simp [hc]
    · by_cases htext : '\n' ∈ text
      · simp [hc, htext]
      · simp [hc, htext, Ne.symm hc]

/-! ## The line around an offset -/

/-- The first line of a text ends in front of the first line feed. -/
theorem head?_splitOn (cs : List Char) :
    (cs.splitOn '\n').head? = some (cs.takeWhile (· != '\n')) := by
  induction cs with
  | nil => rfl
  | cons c cs ih =>
    rw [List.splitOn_cons_eq_if_modifyHead]
    by_cases hc : c = '\n'
    · simp [hc]
    · simp [hc, ih]

theorem length_splitOn (cs : List Char) : (cs.splitOn '\n').length = cs.count '\n' + 1 := by
  induction cs with
  | nil => rfl
  | cons c cs ih =>
    rw [List.splitOn_cons_eq_if_modifyHead]
    by_cases hc : c = '\n'
    · simp [hc, ih]
    · simp [hc, ih]

/-- The lines of a source, counted from zero: the one around an offset is that which has as many
line feeds in front of it as the offset. -/
theorem getElem?_splitOn_append (front rest : List Char) :
    ((front ++ rest).splitOn '\n')[front.count '\n']? =
      some (lastLine front ++ rest.takeWhile (· != '\n')) := by
  induction front using List.reverseRecOn generalizing rest with
  | nil => exact List.head?_eq_getElem?.symm.trans (head?_splitOn rest)
  | append_singleton front c ih =>
    rw [List.append_assoc, List.singleton_append, lastLine_append_singleton, List.count_append]
    by_cases hc : c = '\n'
    · -- Behind a line feed, the lines of the rest follow those of the front.
      subst hc
      have hlength : front.count '\n' + ['\n'].count '\n' = (front.splitOn '\n').length := by
        rw [length_splitOn, List.count_singleton_self]
      rw [List.splitOn_append_cons_self, hlength, List.getElem?_append_right (Nat.le_refl _),
        Nat.sub_self, if_pos rfl, List.nil_append, ← head?_splitOn, List.head?_eq_getElem?]
    · have hnone : [c].count '\n' = 0 := List.count_eq_zero_of_not_mem (by simpa using Ne.symm hc)
      rw [hnone, Nat.add_zero, ih (c :: rest), List.takeWhile_cons_of_pos (by simpa using hc),
        if_neg hc, List.append_assoc, List.singleton_append]

theorem lineFeed_not_mem_lastLine (cs : List Char) : '\n' ∉ lastLine cs := by
  intro h
  have hnot := List.mem_rtakeWhile_imp h
  simp at hnot

/-- Carriage returns at the end of a text stand behind its last other character. -/
theorem dropFinalReturns_append_cons (lead : List Char) {c : Char} (hc : c ≠ '\r')
    (rest : List Char) :
    dropFinalReturns (lead ++ c :: rest) = lead ++ c :: dropFinalReturns rest := by
  have hstop : (c :: lead.reverse).dropWhile (· == '\r') = c :: lead.reverse :=
    List.dropWhile_cons_of_neg (by simpa using hc)
  have hreverse : (lead ++ c :: rest).reverse = rest.reverse ++ c :: lead.reverse := by simp
  rw [dropFinalReturns, dropFinalReturns, hreverse, List.dropWhile_append, hstop]
  split
  · rename_i hnone
    rw [List.isEmpty_iff] at hnone
    simp [hnone]
  · simp

/-! ## Excerpts of lines -/

namespace Excerpt

/-- What a point excerpt shows, and where the underline starts. -/
theorem ofPoint_append (front rest : List Char) (width : Nat) :
    ofPoint (front ++ rest) (utf8Length front) width =
      ⟨front.count '\n' + 1, (lastLine front).length + 1,
        String.ofList (dropFinalReturns (lastLine front ++ rest.takeWhile (· != '\n'))),
        ((lastLine front).length,
          (lastLine front).length + marked (front ++ rest) (utf8Length front) width)⟩ := by
  rw [ofPoint, Position.ofOffset_append, lineAt, takeBytes_utf8Length, dropBytes_utf8Length]

/-- What the excerpt at a character of a source shows: its place, its line without the carriage
returns at the end, and the character itself where the underline starts. -/
structure Shows (source front : List Char) (c : Char) (x : Excerpt) : Prop where
  line : x.line = 1 + front.count '\n'
  column : x.column = 1 + (front.rtakeWhile (· != '\n')).length
  text : ∃ line, (source.splitOn '\n')[front.count '\n']? = some line ∧
    x.text.toList = line.rdropWhile (· == '\r')
  unbroken : '\n' ∉ x.text.toList
  marked : x.text.toList[x.underline.1]? = some c

theorem ofPoint_shows (front : List Char) {c : Char} (back : List Char) (width : Nat)
    (hfeed : c ≠ '\n') (hreturn : c ≠ '\r') :
    (ofPoint (front ++ c :: back) (utf8Length front) width).Shows (front ++ c :: back) front c := by
  have hline : (c :: back).takeWhile (· != '\n') = c :: back.takeWhile (· != '\n') :=
    List.takeWhile_cons_of_pos (by simpa using hfeed)
  rw [ofPoint_append]
  refine ⟨Nat.add_comm _ _, Nat.add_comm _ _, ⟨_, getElem?_splitOn_append front (c :: back), ?_⟩,
    ?_, ?_⟩
  · rw [String.toList_ofList]
    rfl
  · rw [String.toList_ofList]
    intro h
    have hmem := (List.rdropWhile_prefix _ _).subset h
    rcases List.mem_append.1 hmem with hmem | hmem
    · exact lineFeed_not_mem_lastLine front hmem
    · have hnot := List.mem_takeWhile_imp hmem
      simp at hnot
  · dsimp only
    rw [String.toList_ofList, hline, dropFinalReturns_append_cons _ hreturn]
    simp

end Excerpt

/-! ## The order of positions -/

namespace Position

/-- The position is on an earlier line, or further to the front of the same line. -/
def Before (p q : Position) : Prop := p.line < q.line ∨ p.line = q.line ∧ p.column < q.column

theorem Before.ne {p q : Position} (h : p.Before q) : p ≠ q := by
  rintro rfl
  rcases h with h | ⟨-, h⟩ <;> exact Nat.lt_irrefl _ h

theorem Before.asymm {p q : Position} (h : p.Before q) : ¬q.Before p := by
  unfold Before at h ⊢
  omega

/-- The end of a part of a source comes behind its start. -/
theorem before_of_ne_nil (front : List Char) {text : List Char} (h : text ≠ []) (back : List Char) :
    (ofOffset (front ++ (text ++ back)) (utf8Length front)).Before
      (ofOffset (front ++ text ++ back) (utf8Length (front ++ text))) := by
  rw [ofOffset_append, ofOffset_append, List.count_append, lastLine_append]
  by_cases hfeed : '\n' ∈ text
  · have hcount := List.count_pos_iff.2 hfeed
    left
    dsimp only
    omega
  · have hlength := List.length_pos_iff.2 h
    right
    dsimp only
    rw [if_neg hfeed, List.count_eq_zero_of_not_mem hfeed, List.length_append]
    omega

theorem before_of_lt {source : List Char} {a b : Nat} (ha : IsBoundary source a)
    (hb : IsBoundary source b) (h : a < b) :
    (ofOffset source a).Before (ofOffset source b) := by
  obtain ⟨front, rest, hsource, rfl⟩ := ha
  obtain ⟨front', back, rfl, rfl⟩ := hb
  rcases List.append_eq_append_iff.1 hsource with ⟨text, rfl, rfl⟩ | ⟨text, rfl, rfl⟩
  · rw [utf8Length_append] at h
    exact absurd h (Nat.not_lt.2 (Nat.le_add_right _ _))
  · have hne : text ≠ [] := by
      rintro rfl
      simp at h
    have hbefore := before_of_ne_nil front hne back
    rw [← List.append_assoc] at hbefore
    exact hbefore

/-- Where a source may be cut, positions are in the order of the offsets. -/
theorem ofOffset_before_iff {source : List Char} {a b : Nat} (ha : IsBoundary source a)
    (hb : IsBoundary source b) :
    (ofOffset source a).Before (ofOffset source b) ↔ a < b := by
  refine ⟨fun h => ?_, before_of_lt ha hb⟩
  rcases Nat.lt_trichotomy a b with hlt | rfl | hgt
  · exact hlt
  · exact absurd rfl h.ne
  · exact absurd (before_of_lt hb ha hgt) h.asymm

theorem ofOffset_eq_iff {source : List Char} {a b : Nat} (ha : IsBoundary source a)
    (hb : IsBoundary source b) : ofOffset source a = ofOffset source b ↔ a = b := by
  refine ⟨fun h => ?_, congrArg _⟩
  rcases Nat.lt_trichotomy a b with hlt | heq | hgt
  · exact absurd h (before_of_lt ha hb hlt).ne
  · exact heq
  · exact absurd h.symm (before_of_lt hb ha hgt).ne

end Position

/-- The excerpt at a character of a source that breaks no line has the line and column of the
character, and shows it where the underline starts, on its own line. Places where the source may be
cut have positions of their own, in the order of the places. -/
theorem excerpt_shows_character (source : List Char) :
    (∀ front c back width, source = front ++ c :: back → c ≠ '\n' → c ≠ '\r' →
      (Excerpt.ofPoint source (utf8Length front) width).Shows source front c) ∧
    ∀ a b, IsBoundary source a → IsBoundary source b →
      ((Position.ofOffset source a).Before (Position.ofOffset source b) ↔ a < b) ∧
      (Position.ofOffset source a = Position.ofOffset source b ↔ a = b) := by
  constructor
  · rintro front c back width rfl hfeed hreturn
    exact Excerpt.ofPoint_shows front back width hfeed hreturn
  · intro a b ha hb
    exact ⟨Position.ofOffset_before_iff ha hb, Position.ofOffset_eq_iff ha hb⟩

/-- A letter of two bytes between line breaks of two characters. -/
def accentedLine : List Char := ['a', 'l', 'l', '\r', '\n', '&', ' ', 'é', '\r', '\n']

theorem accentedLine_shown :
    (Excerpt.ofPoint accentedLine 7 2).Shows accentedLine (accentedLine.take 7) 'é' ∧
      (Position.ofOffset accentedLine 5).Before (Position.ofOffset accentedLine 7) ∧
      Position.ofOffset accentedLine 5 ≠ Position.ofOffset accentedLine 7 := by
  obtain ⟨hshown, hordered⟩ := excerpt_shows_character accentedLine
  obtain ⟨hbefore, hequal⟩ := hordered 5 7 (by decide) (by decide)
  exact ⟨hshown (accentedLine.take 7) 'é' ['\r', '\n'] 2 rfl (by decide) (by decide),
    hbefore.2 (by decide), fun h => absurd (hequal.1 h) (by decide)⟩

end Criteria
