import Criteria.Proofs.Language.Cutting
import Criteria.Proofs.Number.Followed

/-! # White space between texts

A blank ends every lexeme (`Lexes.followed`). So a text with white space behind it is cut into its
own tokens, whatever follows the white space, and what follows is cut as if nothing stood in front
of it (`Cut.tokensAt_followed`). How much white space stands between two tokens of a text makes no
difference to what the tokens are, and neither does it between any number of them
(`tokenize_spaced`).
-/

set_option autoImplicit false

namespace Criteria.Language

open Number Text

/-! ## Lexemes in front of a blank -/

namespace Lexeme

theorem pair?_blank (c : Char) {d : Char} (hd : isBlank d = true) : pair? c d = none := by
  unfold pair?
  split
  case h_7 => rfl
  all_goals exact absurd hd (by decide)

/-- A lexeme stays the same if the text goes on with a blank at its end. -/
theorem ByKind.followed {word rest : List Char} {t : Token} (h : ByKind word rest t) {d : Char}
    (hd : isBlank d = true) (back : List Char) : ByKind word (rest ++ d :: back) t := by
  cases h with
  | numeral hspan htoken =>
    refine .numeral ?_ htoken
    rw [← List.append_assoc, Numeral.span?_followed (Numeral.isForeign_of_isBlank hd), hspan]
    rfl
  | string hquote hbody =>
    exact .string hquote fun opening position =>
      stringBody_anywhere (hbody opening position) opening position _
  | word hword hrest =>
    have hpart : ∀ d, isBlank d = true → isIdentifierPart d = false := forall_isBlank.2 (by decide)
    exact .word hword (forall_head?_followed hrest (hpart d hd) back)
  | pair h => exact .pair h
  | single h hrest => exact .single h (forall_head?_followed hrest (pair?_blank _ hd) back)

end Lexeme

theorem Lexes.followed {word rest : List Char} {t : Token} (h : Lexes word rest t) {d : Char}
    (hd : isBlank d = true) (back : List Char) : Lexes word (rest ++ d :: back) t := by
  refine (h.byKind.followed hd back).lexes ?_
  obtain ⟨c, r, rfl, hblank⟩ := h.start
  rintro _ ⟨⟩
  exact hblank

/-! ## Texts in front of white space -/

/-- White space between texts: blanks, and at least one of them. -/
structure IsGap (w : List Char) : Prop where
  nonempty : w ≠ []
  blank : ∀ c ∈ w, isBlank c = true

namespace Cut

variable {position : Nat} {cs : List Char} {ts : List (Located Token)}

/-- In front of white space, a text is cut into its own tokens, and what follows the white space
into others behind them. -/
theorem tokensAt_followed (h : Cut position cs ts) {w : List Char} (hw : IsGap w)
    (back : List Char) :
    tokensAt position (cs ++ (w ++ back)) =
      (tokensAt (position + utf8Length cs + utf8Length w) back).map (ts ++ ·) := by
  -- Along the pieces of the text; each lexeme has the first blank, and more, behind its own rest.
  induction h with
  | @nil position =>
    rw [List.nil_append, tokensAt_blanks hw.blank, utf8Length_nil, Nat.add_zero]
    cases tokensAt (position + utf8Length w) back <;> rfl
  | @blank position c cs ts hblank tail ih =>
    rw [List.cons_append, tokensAt, if_pos hblank, ih, utf8Length_cons, Nat.add_assoc position]
  | @lexeme position word rest t ts h tail ih =>
    obtain ⟨d, w', rfl⟩ := List.exists_cons_of_ne_nil hw.nonempty
    have hfollowed := h.followed (hw.blank d List.mem_cons_self) (w' ++ back)
    rw [List.append_assoc, List.cons_append, hfollowed.tokensAt, ← List.cons_append, ih,
      utf8Length_append, Nat.add_assoc position]
    cases tokensAt (position + (utf8Length word + utf8Length rest) + utf8Length (d :: w')) back <;>
      rfl

/-- What is cut is cut into the same tokens wherever the text stands. -/
theorem moved (h : Cut position cs ts) (start : Nat) :
    Cut (start + position) cs (ts.map (·.moved (start + ·))) := by
  induction h with
  | nil => exact .nil
  | @blank position c cs ts hblank tail ih =>
    rw [← Nat.add_assoc] at ih
    exact .blank hblank ih
  | @lexeme position word rest t ts h tail ih =>
    rw [← Nat.add_assoc] at ih
    have hcut := Cut.lexeme h ih
    rw [Nat.add_assoc] at hcut
    exact hcut

end Cut

/-- Behind white space, a text has the tokens that it has on its own, moved by what stands in front
of them. -/
theorem tokensAt_spaced {s w t : List Char} {ts us : List (Located Token)}
    (hs : tokensAt 0 s = .ok ts) (ht : tokensAt 0 t = .ok us) (hw : IsGap w) :
    tokensAt 0 (s ++ w ++ t) = .ok (ts ++ us.map (·.moved (utf8Length (s ++ w) + ·))) := by
  have hbehind : tokensAt (utf8Length (s ++ w) + 0) t =
      .ok (us.map (·.moved (utf8Length (s ++ w) + ·))) :=
    tokensAt_iff.2 ((tokensAt_iff.1 ht).moved _)
  rw [List.append_assoc, (tokensAt_iff.1 hs).tokensAt_followed hw, Nat.zero_add,
    ← utf8Length_append,
    ← Nat.add_zero (utf8Length (s ++ w)), hbehind]
  rfl

/-! ## White space between tokens -/

/-- The range goes on across the offset. -/
def Extent.Straddles (e : Extent) (offset : Nat) : Prop := e.start < offset ∧ offset < e.stop

instance (e : Extent) (offset : Nat) : Decidable (e.Straddles offset) :=
  inferInstanceAs (Decidable (_ ∧ _))

/-- A text may be cut where no token goes on: the tokens of both parts are those of the whole. -/
theorem Cut.exists_split {position : Nat} {front rest : List Char} {ts : List (Located Token)}
    (h : Cut position (front ++ rest) ts)
    (hbetween : ∀ t ∈ ts, ¬t.extent.Straddles (position + utf8Length front)) :
    ∃ us vs, ts = us ++ vs ∧ Cut position front us ∧ Cut (position + utf8Length front) rest vs := by
  generalize hall : front ++ rest = all at h
  induction h generalizing front with
  | nil =>
    obtain ⟨rfl, rfl⟩ := List.append_eq_nil_iff.1 hall
    exact ⟨[], [], rfl, .nil, .nil⟩
  | @blank position c cs ts hblank tail ih =>
    cases front with
    | nil =>
      cases hall
      exact ⟨[], ts, rfl, .nil, .blank hblank tail⟩
    | cons d front =>
      cases hall
      rw [utf8Length_cons, ← Nat.add_assoc] at hbetween ⊢
      obtain ⟨us, vs, rfl, hfront, hrest⟩ := ih hbetween rfl
      exact ⟨us, vs, rfl, .blank hblank hfront, hrest⟩
  | @lexeme position word behind t ts h tail ih =>
    -- No cut lies within the first lexeme.
    have hcut : front = [] ∨ ∃ front', front = word ++ front' ∧ front' ++ rest = behind := by
      rcases List.append_eq_append_iff.1 hall with ⟨word', rfl, rfl⟩ | ⟨front', rfl, rfl⟩
      · rcases front with _ | ⟨c, front⟩
        · exact .inl rfl
        rcases word' with _ | ⟨d, word'⟩
        · exact .inr ⟨[], by simp, rfl⟩
        have hc := c.utf8Size_pos
        have hd := d.utf8Size_pos
        refine absurd ?_ (hbetween _ List.mem_cons_self)
        constructor <;> simp only [utf8Length_append, utf8Length_cons] <;> omega
      · exact .inr ⟨front', rfl, rfl⟩
    rcases hcut with rfl | ⟨front', rfl, rfl⟩
    · rw [List.nil_append] at hall
      rw [hall]
      exact ⟨[], _, rfl, .nil, .lexeme h tail⟩
    · rw [utf8Length_append, ← Nat.add_assoc] at hbetween ⊢
      obtain ⟨us, vs, rfl, hfront, hrest⟩ :=
        ih (fun u hu => hbetween u (List.mem_cons_of_mem _ hu)) rfl
      exact ⟨_, vs, rfl, .lexeme h.endsEarlier hfront, hrest⟩

/-- Other white space at one place of a text: a gap, where the text had blanks or nothing behind
`front`, and no token goes on there. -/
inductive Respaced : String → String → Prop
  | mk {front w w' back : String} {ts : List (Located Token)}
      (hts : tokenize (front ++ w ++ back) = .ok ts)
      (hbetween : ∀ t ∈ ts, ¬t.extent.Straddles (utf8Length front.toList))
      (hw : ∀ c ∈ w.toList, isBlank c = true) (hw' : IsGap w'.toList) :
      Respaced (front ++ w ++ back) (front ++ w' ++ back)

/-- Other white space at one place leaves the tokens what they are. -/
theorem Respaced.exists_tokens {source source' : String} (h : Respaced source source')
    {ts : List (Located Token)} (hts : tokenize source = .ok ts) :
    ∃ ts', tokenize source' = .ok ts' ∧ ts'.map (·.value) = ts.map (·.value) := by
  obtain @⟨front, w, w', back, _, hts', hbetween, hw, hw'⟩ := h
  cases hts.symm.trans hts'
  rw [tokenize, String.toList_append, String.toList_append] at hts ⊢
  rw [List.append_assoc] at hts
  rw [← Nat.zero_add (utf8Length front.toList)] at hbetween
  obtain ⟨us, vs, rfl, hfront, hrest⟩ := (tokensAt_iff.1 hts).exists_split hbetween
  -- The blanks that were there only move the tokens behind them.
  have hback := tokensAt_iff.2 hrest
  rw [tokensAt_blanks hw, ← Nat.add_zero (0 + utf8Length front.toList + utf8Length w.toList)]
    at hback
  obtain ⟨alone, halone, rfl⟩ := (tokensAt_iff.1 hback).exists_moved
  refine ⟨_, tokensAt_spaced (tokensAt_iff.2 hfront) (tokensAt_iff.2 halone) hw', ?_⟩
  simp [Located.moved, Function.comp_def]

/-- Texts that have tokens may be put one behind the other with white space between them: the tokens
are those of the first text, and those of the second one, moved by what stands in front of it. And
however often other white space is put between tokens of a text, the tokens are the same. -/
theorem tokenize_spaced :
    (∀ s w t ts us, tokenize s = .ok ts → tokenize t = .ok us → IsGap w.toList →
      tokenize (s ++ w ++ t) = .ok (ts ++ us.map (·.moved (utf8Length (s ++ w).toList + ·)))) ∧
    ∀ source source' ts, tokenize source = .ok ts →
      Relation.ReflTransGen Respaced source source' →
      ∃ ts', tokenize source' = .ok ts' ∧ ts'.map (·.value) = ts.map (·.value) := by
  constructor
  · intro s w t ts us hs ht hw
    rw [tokenize, String.toList_append, String.toList_append]
    exact tokensAt_spaced hs ht hw
  · intro source source' ts hts h
    -- By induction on the places; what changes at one of them leaves the tokens as they were.
    induction h with
    | refl => exact ⟨ts, hts, rfl⟩
    | tail _ hlast ih =>
      obtain ⟨ts', hts', hvalues⟩ := ih
      obtain ⟨ts'', hts'', hvalues'⟩ := hlast.exists_tokens hts'
      exact ⟨ts'', hts'', hvalues'.trans hvalues⟩

/-- A comparison without white space, with a string whose only letter takes two bytes. -/
def tightComparison : String := "this.name=='é'"

/-- The tokens of the comparison. -/
def tightTokens : List (Located Token) :=
  [⟨.keyword .thisWord, ⟨0, 4⟩⟩, ⟨.symbol .dot, ⟨4, 5⟩⟩, ⟨.identifier "name", ⟨5, 9⟩⟩,
    ⟨.symbol .equal, ⟨9, 11⟩⟩, ⟨.string "é", ⟨11, 15⟩⟩]

theorem tokenize_tightComparison : tokenize tightComparison = .ok tightTokens := by cbv

/-- White space may be put in front of the sign of the comparison, and behind it. -/
theorem respaced_tightComparison :
    Relation.ReflTransGen Respaced tightComparison "this.name == 'é'" := by
  have hbefore : Respaced ("this.name" ++ "" ++ "=='é'") ("this.name" ++ " " ++ "=='é'") :=
    .mk tokenize_tightComparison (by decide) (by simp) ⟨by decide, by simp [isBlank]⟩
  have htokens : tokenize ("this.name ==" ++ "" ++ "'é'") =
      .ok [⟨.keyword .thisWord, ⟨0, 4⟩⟩, ⟨.symbol .dot, ⟨4, 5⟩⟩, ⟨.identifier "name", ⟨5, 9⟩⟩,
        ⟨.symbol .equal, ⟨10, 12⟩⟩, ⟨.string "é", ⟨12, 16⟩⟩] := by cbv
  have hbehind : Respaced ("this.name ==" ++ "" ++ "'é'") ("this.name ==" ++ " " ++ "'é'") :=
    .mk htokens (by decide) (by simp) ⟨by decide, by simp [isBlank]⟩
  exact (Relation.ReflTransGen.single hbefore).tail hbehind

/-- The comparison goes on behind a line break, or has white space around its sign. -/
theorem tightComparison_spaced :
    tokenize (tightComparison ++ "\r\n" ++ "& all") = .ok (tightTokens ++
      [⟨.symbol .ampersand, ⟨17, 18⟩⟩, ⟨.keyword .allWord, ⟨19, 22⟩⟩]) ∧
    ∃ ts', tokenize "this.name == 'é'" = .ok ts' ∧
      ts'.map (·.value) = tightTokens.map (·.value) := by
  have hall : tokenize "& all" =
      .ok [⟨.symbol .ampersand, ⟨0, 1⟩⟩, ⟨.keyword .allWord, ⟨2, 5⟩⟩] := by cbv
  have hgap : IsGap "\r\n".toList := ⟨by decide, by simp [isBlank]⟩
  have hwidth : utf8Length (tightComparison ++ "\r\n").toList = 17 := by cbv
  have htokens := tokenize_spaced.1 _ _ _ _ _ tokenize_tightComparison hall hgap
  rw [hwidth] at htokens
  exact ⟨htokens,
    tokenize_spaced.2 _ _ _ tokenize_tightComparison respaced_tightComparison⟩

end Criteria.Language
