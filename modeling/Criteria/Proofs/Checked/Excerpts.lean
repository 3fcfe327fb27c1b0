import Criteria.Proofs.Checked.Basic
import Criteria.Proofs.Language.Layout
import Criteria.Report.Diagnostic

/-! # Excerpts and diagnostics, checked

The line around an offset is cut out of its source three times: in front of the offset, behind it,
and from the line feed found in front to the one found behind. All three cuts have a result if the
offset lies on a boundary (`lineAt_eq`). A diagnostic counts lines and columns from zero, and takes
the underline for the width, so it needs an excerpt that counts from one and underlines forwards
(`diagnose_eq`).
-/

set_option autoImplicit false

namespace Criteria.Checked

open Text

/-! ## Cuts -/

/-- The characters from one offset to another. -/
def cut (start stop : Nat) (cs : List Char) : Except Trap (List Char) :=
  if start ≤ stop ∧ IsBoundary cs start ∧ IsBoundary cs stop then .ok (slice start stop cs)
  else .error .cut

theorem cut_append (front text back : List Char) :
    cut (utf8Length front) (utf8Length (front ++ text)) (front ++ text ++ back) = .ok text := by
  have hle : utf8Length front ≤ utf8Length (front ++ text) := by
    rw [utf8Length_append]
    exact Nat.le_add_right _ _
  have hstart : IsBoundary (front ++ text ++ back) (utf8Length front) := by
    rw [List.append_assoc]
    exact .append _ _
  rw [cut, if_pos ⟨hle, hstart, .append _ _⟩, slice_append]

theorem cut_front (front back : List Char) :
    cut 0 (utf8Length front) (front ++ back) = .ok front :=
  cut_append [] front back

theorem cut_back (front back : List Char) :
    cut (utf8Length front) (utf8Length (front ++ back)) (front ++ back) = .ok back := by
  have h := cut_append front back []
  rwa [List.append_nil] at h

/-! ## Lines -/

/-- The offset of the first line feed. -/
def firstLineFeed? : List Char → Option Nat
  | [] => none
  | c :: cs => if c = '\n' then some 0 else (firstLineFeed? cs).map (c.utf8Size + ·)

/-- The offset of the last line feed. -/
def lastLineFeed? : List Char → Option Nat
  | [] => none
  | c :: cs =>
    match lastLineFeed? cs with
    | some i => some (c.utf8Size + i)
    | none => if c = '\n' then some 0 else none

/-- The line around an offset, cut out of its source. -/
def lineAt (source : List Char) (offset : Nat) : Except Trap (List Char) := do
  let offset := min offset (utf8Length source)
  let front ← cut 0 offset source
  let back ← cut offset (utf8Length source) source
  let start := ((lastLineFeed? front).map (· + 1)).getD 0
  let stop := ((firstLineFeed? back).map (offset + ·)).getD (utf8Length source)
  let line ← cut start stop source
  .ok (dropFinalReturns line)

/-- The first line feed stands behind the characters that are none. -/
theorem getD_firstLineFeed? (cs : List Char) :
    (firstLineFeed? cs).getD (utf8Length cs) = utf8Length (cs.takeWhile (· != '\n')) := by
  induction cs with
  | nil => rfl
  | cons c cs ih =>
    rw [firstLineFeed?]
    by_cases hc : c = '\n'
    · simp [hc]
    · have htake : (c :: cs).takeWhile (· != '\n') = c :: cs.takeWhile (· != '\n') :=
        List.takeWhile_cons_of_pos (by simpa using hc)
      rw [if_neg hc, htake, utf8Length_cons, utf8Length_cons, ← ih]
      cases firstLineFeed? cs <;> rfl

theorem lastLineFeed?_append_singleton (cs : List Char) (c : Char) :
    lastLineFeed? (cs ++ [c]) = if c = '\n' then some (utf8Length cs) else lastLineFeed? cs := by
  induction cs with
  | nil =>
    by_cases hc : c = '\n' <;> simp [lastLineFeed?, hc]
  | cons d cs ih =>
    rw [List.cons_append, lastLineFeed?, ih, lastLineFeed?]
    by_cases hc : c = '\n'
    · simp [hc]
    · simp [hc]

/-- A line starts behind the last line feed, which is a single byte. -/
theorem exists_front_of_lastLine (cs : List Char) :
    ∃ front, cs = front ++ lastLine cs ∧
      ((lastLineFeed? cs).map (· + 1)).getD 0 = utf8Length front := by
  induction cs using List.reverseRecOn with
  | nil => exact ⟨[], rfl, rfl⟩
  | append_singleton cs c ih =>
    obtain ⟨front, hcs, hstart⟩ := ih
    rw [lastLineFeed?_append_singleton, lastLine_append_singleton]
    by_cases hc : c = '\n'
    · refine ⟨cs ++ [c], ?_, ?_⟩
      · simp [hc]
      · subst hc
        rw [if_pos rfl, utf8Length_append]
        rfl
    · rw [if_neg hc, if_neg hc]
      refine ⟨front, ?_, hstart⟩
      rw [← List.append_assoc, ← hcs]

/-- Every boundary has a line around it. -/
theorem lineAt_eq {source : List Char} {offset : Nat} (h : IsBoundary source offset) :
    lineAt source offset = .ok (Criteria.lineAt source offset) := by
  have hmin : min offset (utf8Length source) = offset := Nat.min_eq_left h.le
  obtain ⟨front, back, rfl, rfl⟩ := h
  obtain ⟨before, hfront, hstart⟩ := exists_front_of_lastLine front
  have hstop : ((firstLineFeed? back).map (utf8Length front + ·)).getD (utf8Length (front ++ back))
      = utf8Length (front ++ back.takeWhile (· != '\n')) := by
    rw [utf8Length_append, utf8Length_append, ← getD_firstLineFeed?]
    cases firstLineFeed? back <;> rfl
  have hline : cut (utf8Length before) (utf8Length (front ++ back.takeWhile (· != '\n')))
      (front ++ back) = .ok (lastLine front ++ back.takeWhile (· != '\n')) := by
    have hcut := cut_append before (lastLine front ++ back.takeWhile (· != '\n'))
      (back.dropWhile (· != '\n'))
    rw [← List.append_assoc, ← hfront] at hcut
    rwa [List.append_assoc, List.takeWhile_append_dropWhile] at hcut
  unfold lineAt
  dsimp only
  rw [hmin]
  refine bind_eq_ok.2 ⟨front, cut_front _ _, bind_eq_ok.2 ⟨back, cut_back _ _, ?_⟩⟩
  rw [hstart, hstop, hline, Criteria.lineAt, takeBytes_utf8Length, dropBytes_utf8Length]
  rfl

/-! ## Excerpts -/

/-- The excerpt around an offset, with its line cut out of the source. -/
def pointExcerpt (source : List Char) (offset width : Nat) : Except Trap Excerpt := do
  let line ← lineAt source offset
  .ok { Excerpt.ofPoint source offset width with text := String.ofList line }

theorem pointExcerpt_eq {source : List Char} {offset : Nat} (h : IsBoundary source offset)
    (width : Nat) : pointExcerpt source offset width = .ok (.ofPoint source offset width) := by
  rw [pointExcerpt, lineAt_eq h]
  rfl

/-- An excerpt that counts from one and underlines forwards. -/
structure WellPlaced (x : Excerpt) : Prop where
  line : 1 ≤ x.line
  column : 1 ≤ x.column
  underline : x.underline.1 ≤ x.underline.2

theorem wellPlaced_ofPoint (source : List Char) (offset width : Nat) :
    WellPlaced (.ofPoint source offset width) :=
  ⟨Nat.le_add_left _ _, Nat.le_add_left _ _, Nat.le_add_right _ _⟩

theorem wellPlaced_ofRange (source : List Char) (start stop : Nat) :
    WellPlaced (.ofRange source start stop) :=
  ⟨Nat.le_add_left _ _, Nat.le_add_left _ _, Nat.zero_le _⟩

/-! ## Diagnostics -/

/-- The diagnostic of an error, its place counted down to zero. -/
def diagnose (e : CompileError) : Except Trap Diagnostic :=
  match e.location with
  | .path _ => .ok (.ofError e)
  | .source x => do
    let line ← minus x.line 1
    let column ← minus x.column 1
    let width ← minus x.underline.2 x.underline.1
    let plain := Diagnostic.withMessage { kind := e.kind } e.message
    .ok ((plain.withSpan ⟨⟨line, column⟩, ⟨line, column + width⟩⟩).withExcerpt x.text x.underline)

theorem diagnose_eq {e : CompileError} (h : ∀ x, e.location = .source x → WellPlaced x) :
    diagnose e = .ok (.ofError e) := by
  unfold diagnose Diagnostic.ofError
  cases hlocation : e.location with
  | path p => rfl
  | source x =>
    obtain ⟨hline, hcolumn, hunderline⟩ := h x hlocation
    dsimp only
    rw [minus_of_le hline, minus_of_le hcolumn, minus_of_le hunderline]
    rfl

end Criteria.Checked
