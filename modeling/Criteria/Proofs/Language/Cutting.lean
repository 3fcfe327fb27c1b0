import Criteria.Proofs.Language.Layout
import Criteria.Proofs.Language.Lexing

/-! # Tokens of parts of a text

A lexeme is found in the same way wherever its text stands, and also if the text ends earlier
behind it (`Lexes.endsEarlier`). So the tokens of a part of a text, from the start of one token to
the end of another, are those that stand there in the whole (`exists_part_of_run`), and on its own
the part has the same tokens at other places (`Cut.exists_moved`).
-/

set_option autoImplicit false

namespace Criteria.Language

open Number Text

/-! ## Lexemes in front of less -/

namespace Lexeme

namespace ByKind

variable {word rest back : List Char} {t : Token}

/-- A lexeme of any kind is cut off. -/
theorem lexes (h : ByKind word rest t) (hblank : ∀ c ∈ word.head?, isBlank c = false) :
    Lexes word rest t := by
  cases h with
  | @numeral n _ _ _ hspan htoken =>
    have hne := Numeral.span?_ne_nil hspan
    refine ⟨?_, fun position => exists_scan?_numeral (by simp [hne]) hspan (htoken position)⟩
    obtain ⟨c, r, rfl⟩ := List.exists_cons_of_ne_nil hne
    exact ⟨c, r, rfl, hblank c rfl⟩
  | @string quote value text _ hquote hbody =>
    refine ⟨⟨quote, text, rfl, hblank quote rfl⟩, fun position => ?_⟩
    have hspan : Numeral.span? (quote :: (text ++ rest)) = none := by
      rcases hquote with rfl | rfl <;> exact span?_eq_none (by decide) (by decide)
    exact exists_scan?_string hspan hquote (hbody position _)
  | word hword hrest => exact lexes_word hword hrest
  | pair h => exact lexes_pair h _
  | single h hrest => exact lexes_single h hrest

/-- If the text ends earlier, a lexeme in front of the new end is the same one. -/
theorem endsEarlier (h : ByKind word (rest ++ back) t) : ByKind word rest t := by
  cases h with
  | numeral hspan htoken => exact .numeral (Numeral.span?_endsEarlier hspan) htoken
  | string hquote hbody =>
    exact .string hquote fun opening position =>
      stringBody_anywhere (hbody opening position) opening position rest
  | word hword hrest => exact .word hword (forall_head?_of_append hrest)
  | pair h => exact .pair h
  | single h hrest => exact .single h (forall_head?_of_append hrest)

end ByKind

end Lexeme

theorem Lexes.byKind {word rest : List Char} {t : Token} (h : Lexes word rest t) :
    Lexeme.ByKind word rest t := by
  obtain ⟨l, hscan, htoken, htext, hrest⟩ := h.exists_lexeme 0
  have hkind := Lexeme.byKind_of_scan? hscan
  rw [htext, hrest, htoken] at hkind
  exact hkind

/-- If the text ends earlier, a lexeme in front of the new end is cut off all the same. -/
theorem Lexes.endsEarlier {word rest back : List Char} {t : Token}
    (h : Lexes word (rest ++ back) t) : Lexes word rest t := by
  refine h.byKind.endsEarlier.lexes ?_
  obtain ⟨c, r, rfl, hblank⟩ := h.start
  intro d hd
  cases hd
  exact hblank

/-! ## Tokens piece by piece -/

/-- Another place for an offset. -/
def Extent.moved (f : Nat → Nat) (e : Extent) : Extent := ⟨f e.start, f e.stop⟩

/-- A value at another place. -/
def Located.moved {α : Type} (f : Nat → Nat) (a : Located α) : Located α :=
  ⟨a.value, a.extent.moved f⟩

/-- The tokens of a text that stands at a position, one piece of the text after the other. -/
inductive Cut : Nat → List Char → List (Located Token) → Prop
  | nil {position : Nat} : Cut position [] []
  | blank {position : Nat} {c : Char} {cs : List Char} {ts : List (Located Token)}
      (h : isBlank c = true) (tail : Cut (position + c.utf8Size) cs ts) : Cut position (c :: cs) ts
  | lexeme {position : Nat} {word rest : List Char} {t : Token} {ts : List (Located Token)}
      (h : Lexes word rest t) (tail : Cut (position + utf8Length word) rest ts) :
      Cut position (word ++ rest) (⟨t, ⟨position, position + utf8Length word⟩⟩ :: ts)

/-- Blanks in front of a text only move its tokens. -/
theorem tokensAt_blanks {position : Nat} {front cs : List Char}
    (h : ∀ c ∈ front, isBlank c = true) :
    tokensAt position (front ++ cs) = tokensAt (position + utf8Length front) cs := by
  induction front generalizing position with
  | nil => rfl
  | cons c front ih =>
    rw [List.cons_append, tokensAt, if_pos (h c List.mem_cons_self),
      ih fun d hd => h d (List.mem_cons_of_mem c hd), utf8Length_cons, Nat.add_assoc]

/-- The tokens of a text are those of its pieces. -/
theorem tokensAt_iff {position : Nat} {cs : List Char} {ts : List (Located Token)} :
    tokensAt position cs = .ok ts ↔ Cut position cs ts := by
  constructor
  · intro h
    fun_induction tokensAt position cs generalizing ts with
    | case1 =>
      cases h
      exact .nil
    | case2 position c r hblank ih => exact .blank hblank (ih h)
    | case3 => cases h
    | case4 => cases h
    | case5 position c r hblank lexeme hscan stop =>
      rename_i ih
      obtain ⟨tokens, htokens, h⟩ := bind_eq_ok.1 h
      cases h
      have hstart : ∀ d ∈ lexeme.text.head?, isBlank d = false := by
        intro d hd
        obtain ⟨c', text, htext⟩ := List.exists_cons_of_ne_nil lexeme.nonempty
        have hsplit := lexeme.split
        rw [htext] at hd hsplit
        cases hd
        rw [(List.cons.inj hsplit).1]
        simpa using hblank
      have hcut := Cut.lexeme ((Lexeme.byKind_of_scan? hscan).lexes hstart) (ih htokens)
      rw [lexeme.split] at hcut
      exact hcut
  · intro h
    induction h with
    | nil => rw [tokensAt]
    | blank hblank tail ih =>
      rw [tokensAt, if_pos hblank]
      exact ih
    | lexeme h tail ih =>
      rw [h.tokensAt, ih]
      rfl

namespace Cut

variable {position : Nat} {cs : List Char} {t : Located Token} {ts us : List (Located Token)}

theorem blanks {front : List Char} (h : ∀ c ∈ front, isBlank c = true)
    (tail : Cut (position + utf8Length front) cs ts) : Cut position (front ++ cs) ts := by
  rw [← tokensAt_iff, tokensAt_blanks h]
  exact tokensAt_iff.2 tail

/-- What is cut at another position is cut into the same tokens at other places. -/
theorem exists_moved {start : Nat} (h : Cut (start + position) cs ts) :
    ∃ ts', Cut position cs ts' ∧ ts = ts'.map (·.moved (start + ·)) := by
  generalize hfrom : start + position = origin at h
  induction h generalizing position with
  | nil => exact ⟨[], .nil, rfl⟩
  | @blank _ c _ _ hblank tail ih =>
    subst hfrom
    obtain ⟨ts', hcut, rfl⟩ := ih (Nat.add_assoc start position c.utf8Size).symm
    exact ⟨ts', .blank hblank hcut, rfl⟩
  | @lexeme _ word rest t _ h tail ih =>
    subst hfrom
    obtain ⟨ts', hcut, rfl⟩ := ih (Nat.add_assoc start position (utf8Length word)).symm
    refine ⟨_, .lexeme h hcut, ?_⟩
    rw [List.map_cons, Located.moved, Extent.moved, Nat.add_assoc]

/-- The tokens from one of them on are those of the text from the start of this one. -/
theorem drop (h : Cut position cs (us ++ t :: ts)) :
    ∃ front rest, cs = front ++ rest ∧ t.extent.start = position + utf8Length front ∧
      Cut t.extent.start rest (t :: ts) := by
  generalize hall : us ++ t :: ts = all at h
  induction h generalizing us with
  | nil =>
    cases us <;> cases hall
  | @blank position c cs all hblank tail ih =>
    obtain ⟨front, rest, rfl, hstart, hcut⟩ := ih hall
    refine ⟨c :: front, rest, rfl, ?_, hcut⟩
    rw [hstart, utf8Length_cons, Nat.add_assoc]
  | @lexeme position word rest first all h tail ih =>
    cases us with
    | nil =>
      cases hall
      exact ⟨[], word ++ rest, rfl, rfl, .lexeme h tail⟩
    | cons u us =>
      cases hall
      obtain ⟨front, rest, rfl, hstart, hcut⟩ := ih rfl
      refine ⟨word ++ front, rest, (List.append_assoc _ _ _).symm, ?_, hcut⟩
      rw [hstart, utf8Length_append, Nat.add_assoc]

/-- The tokens up to one of them are those of the text up to the end of this one. -/
theorem take (h : Cut position cs (us ++ t :: ts)) :
    ∃ text back, cs = text ++ back ∧ t.extent.stop = position + utf8Length text ∧
      Cut position text (us ++ [t]) := by
  generalize hall : us ++ t :: ts = all at h
  induction h generalizing us with
  | nil =>
    cases us <;> cases hall
  | @blank position c cs all hblank tail ih =>
    obtain ⟨text, back, rfl, hstop, hcut⟩ := ih hall
    refine ⟨c :: text, back, rfl, ?_, .blank hblank hcut⟩
    rw [hstop, utf8Length_cons, Nat.add_assoc]
  | @lexeme position word rest first all h tail ih =>
    cases us with
    | nil =>
      cases hall
      have hword : Lexes word ([] ++ rest) first := h
      have hnil : Cut (position + utf8Length word) [] [] := .nil
      have hcut := Cut.lexeme hword.endsEarlier hnil
      rw [List.append_nil] at hcut
      exact ⟨word, rest, rfl, rfl, hcut⟩
    | cons u us =>
      cases hall
      obtain ⟨text, back, rfl, hstop, hcut⟩ := ih rfl
      refine ⟨word ++ text, back, (List.append_assoc _ _ _).symm, ?_, .lexeme h.endsEarlier hcut⟩
      rw [hstop, utf8Length_append, Nat.add_assoc]

end Cut

/-- Consecutive tokens of a source are the tokens of a part of it. -/
theorem exists_part_of_run {source : List Char} {us run vs : List (Located Token)}
    {extent : Extent} (h : tokensAt 0 source = .ok (us ++ run ++ vs)) (hrun : Spans run extent) :
    ∃ front text back, Part source extent front text back ∧
      tokensAt extent.start text = .ok run := by
  obtain ⟨⟨t, ts, hfirst, hstart⟩, ⟨ts', u, hlast, hstop⟩⟩ := hrun
  have hcut : Cut 0 source (us ++ t :: (ts ++ vs)) := by
    rw [hfirst] at h
    have htokens := tokensAt_iff.1 h
    rwa [List.append_assoc] at htokens
  obtain ⟨front, rest, rfl, hfront, hrest⟩ := hcut.drop
  have hcut' : Cut t.extent.start rest (ts' ++ u :: vs) := by
    rw [← List.cons_append, ← hfirst, hlast, List.append_assoc] at hrest
    exact hrest
  obtain ⟨text, back, rfl, htext, hrun⟩ := hcut'.take
  rw [Nat.zero_add] at hfront
  refine ⟨front, text, back, ⟨(List.append_assoc _ _ _).symm, ?_, ?_⟩, ?_⟩
  · rw [← hstart, hfront]
  · rw [← hstop, htext, hfront, utf8Length_append]
  · rw [← hstart, hlast]
    exact tokensAt_iff.2 hrun

end Criteria.Language
