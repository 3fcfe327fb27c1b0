import Criteria.Proofs.Language.Derivation
import Criteria.Proofs.Language.Lexing
import Criteria.Proofs.Text.Parts

/-! # Writing tokens

Texts that are cut into given tokens, from which the grammar derives what was written. What may
follow a text so that its last lexeme does not go on is a sort of characters. Texts are put
together as productions are: one after the other, in parentheses, with separators.
-/

set_option autoImplicit false

namespace Criteria.Language

open Number Text Grammar Criteria.Language.Derivation

/-! ## Texts in front of other texts -/

/-- The text is at its end or goes on with a character of the sort. -/
def Ends (sort : Char → Bool) (rest : List Char) : Prop := ∀ c ∈ rest.head?, sort c = true

/-- Any character. -/
def anyChar (_ : Char) : Bool := true

/-- A character that ends a word. -/
def endsWord (c : Char) : Bool := !isIdentifierPart c

/-- A character that stands behind a comparison, a list item or an argument. -/
def closes (c : Char) : Bool := c = ' ' || c = ')' || c = ','

/-- A blank, which stands behind an operator. -/
def isSpace (c : Char) : Bool := c = ' '

theorem ends_any (rest : List Char) : Ends anyChar rest := fun _ _ => rfl

theorem Ends.cons {sort : Char → Bool} {c : Char} (h : sort c = true) (rest : List Char) :
    Ends sort (c :: rest) := by
  intro d hd
  cases hd
  exact h

theorem Ends.mono {sort sort' : Char → Bool} (hsort : ∀ c, sort c = true → sort' c = true)
    {rest : List Char} (h : Ends sort rest) : Ends sort' rest :=
  fun c hc => hsort c (h c hc)

theorem endsWord_of_closes {c : Char} (h : closes c = true) : endsWord c = true := by
  simp only [closes, Bool.or_eq_true, decide_eq_true_eq] at h
  rcases h with (rfl | rfl) | rfl <;> decide

theorem endsWord_of_isSpace {c : Char} (h : isSpace c = true) : endsWord c = true := by
  obtain rfl := of_decide_eq_true h
  decide

theorem ended_of_closes {rest : List Char} (h : Ends closes rest) : Numeral.Ended rest := by
  intro c hc
  have hcloses := h c hc
  simp only [closes, Bool.or_eq_true, decide_eq_true_eq] at hcloses
  rcases hcloses with (rfl | rfl) | rfl <;> decide

/-- The text is cut into the tokens in front of what its last lexeme cannot go on with. -/
def Written (sort : Char → Bool) (text : List Char) (ts : List Token) : Prop :=
  ∀ ⦃rest : List Char⦄ ⦃us : List Token⦄, Ends sort rest → Tokenized rest us →
    Tokenized (text ++ rest) (ts ++ us)

namespace Written

variable {sort sort' : Char → Bool} {text text' : List Char} {ts ts' : List Token}

theorem nil : Written sort [] [] := fun _ _ _ h => h

theorem of_lexes {t : Token} (h : ∀ rest, Ends sort rest → Lexes text rest t) :
    Written sort text [t] :=
  fun _ _ hrest htail => .lexeme (h _ hrest) htail

theorem mono (hsort : ∀ c, sort' c = true → sort c = true) (h : Written sort text ts) :
    Written sort' text ts :=
  fun _ _ hrest htail => h (hrest.mono hsort) htail

theorem blank (h : Written sort text ts) : Written sort (' ' :: text) ts :=
  fun _ _ hrest htail => .blank rfl (h hrest htail)

/-- A text behind another one, whose last lexeme does not go on into it. -/
theorem append (h : Written sort text ts) (h' : Written sort' text' ts')
    (hends : ∀ rest, Ends sort' rest → Ends sort (text' ++ rest)) :
    Written sort' (text ++ text') (ts ++ ts') := by
  intro rest us hrest htail
  rw [List.append_assoc, List.append_assoc]
  exact h (hends rest hrest) (h' hrest htail)

/-- A text that starts with a character of the sort behind another one. -/
theorem append_cons {c : Char} (h : Written sort text ts) (h' : Written sort' (c :: text') ts')
    (hc : sort c = true) : Written sort' (text ++ c :: text') (ts ++ ts') :=
  h.append h' fun _ _ => Ends.cons hc _

end Written

/-- A text of its own is put together from the lexemes of its tokens. -/
theorem Written.tokenized {sort : Char → Bool} {text : List Char} {us : List Token}
    (h : Written sort text us) : Tokenized text us := by
  have hends : Ends sort [] := fun _ hc => nomatch hc
  have htokenized := h hends Tokenized.nil
  rwa [List.append_nil, List.append_nil] at htokenized

/-- A text of its own is cut into the tokens it is written with. -/
theorem Written.exists_tokens {sort : Char → Bool} {text : String} {us : List Token}
    (h : Written sort text.toList us) :
    ∃ ts, tokenize text = .ok ts ∧ ts.map (·.value) = us :=
  h.tokenized.tokensAt 0

theorem written_word {name : String} (h : IsWord name) :
    Written endsWord name.toList [.ofWord name] := by
  refine Written.of_lexes fun rest hrest => lexes_word h ?_
  intro c hc
  have hend := hrest c hc
  simpa [endsWord] using hend

/-- A symbol of one character that is not the first of two. -/
theorem written_single {c : Char} {s : Symbol} (h : Lexeme.single? c = some s)
    (hpair : ∀ d, Lexeme.pair? c d = none) : Written anyChar [c] [.symbol s] :=
  Written.of_lexes fun _ _ => lexes_single h fun d _ => hpair d

theorem written_leftParen : Written anyChar ['('] [.symbol .leftParen] :=
  written_single rfl fun _ => rfl

theorem written_rightParen : Written anyChar [')'] [.symbol .rightParen] :=
  written_single rfl fun _ => rfl

theorem written_comma : Written anyChar [','] [.symbol .comma] :=
  written_single rfl fun _ => rfl

theorem written_dot : Written anyChar ['.'] [.symbol .dot] :=
  written_single rfl fun _ => rfl

/-! ## Texts of productions -/

/-- The text is cut into tokens from which the production derives something with the property,
wherever the tokens stand. -/
def Renders {α : Type} (sort : Char → Bool) (text : List Char) (R : Production α) (P : α → Prop) :
    Prop :=
  ∃ ts, Written sort text ts ∧
    ∀ located : Tokens, located.map (·.value) = ts → ∃ a, R located a ∧ P a

section

variable {α β γ : Type} {sort sort' : Char → Bool} {text text' : List Char} {R : Production α}
  {R' : Production β} {S : Production γ} {P : α → Prop} {P' : β → Prop} {Q : γ → Prop}

theorem Renders.mono (hsort : ∀ c, sort' c = true → sort c = true) (h : Renders sort text R P) :
    Renders sort' text R P := by
  obtain ⟨ts, hwritten, hderives⟩ := h
  exact ⟨ts, hwritten.mono hsort, hderives⟩

/-- A text of one token. -/
theorem renders_token {t : Token} (hwritten : Written sort text [t])
    (h : ∀ u : Located Token, u.value = t → ∃ a, R [u] a ∧ P a) : Renders sort text R P := by
  refine ⟨[t], hwritten, ?_⟩
  intro located hlocated
  obtain ⟨u, rest, rfl, hu, hrest⟩ := List.map_eq_cons_iff.1 hlocated
  obtain rfl := List.map_eq_nil_iff.1 hrest
  exact h u hu

theorem Renders.imp (h : Renders sort text R P)
    (himp : ∀ located a, R located a → P a → ∃ b, R' located b ∧ P' b) :
    Renders sort text R' P' := by
  obtain ⟨ts, hwritten, hderives⟩ := h
  refine ⟨ts, hwritten, ?_⟩
  intro located hlocated
  obtain ⟨a, ha, hP⟩ := hderives located hlocated
  exact himp located a ha hP

theorem Renders.weaken {Q : α → Prop} (h : Renders sort text R P) (himp : ∀ a, P a → Q a) :
    Renders sort text R Q :=
  h.imp fun _ a ha hP => ⟨a, ha, himp a hP⟩

theorem Renders.blank (h : Renders sort text R P) : Renders sort (' ' :: text) R P := by
  obtain ⟨ts, hwritten, hderives⟩ := h
  exact ⟨ts, hwritten.blank, hderives⟩

/-- Two productions one after the other. -/
theorem Renders.append (h : Renders sort text R P) (h' : Renders sort' text' R' P')
    (hends : ∀ rest, Ends sort' rest → Ends sort (text' ++ rest))
    (hjoin : ∀ us vs a b, R us a → P a → R' vs b → P' b → ∃ x, S (us ++ vs) x ∧ Q x) :
    Renders sort' (text ++ text') S Q := by
  obtain ⟨ts, hwritten, hderives⟩ := h
  obtain ⟨ts', hwritten', hderives'⟩ := h'
  refine ⟨ts ++ ts', hwritten.append hwritten' hends, ?_⟩
  intro located hlocated
  obtain ⟨us, vs, rfl, hus, hvs⟩ := List.map_eq_append_iff.1 hlocated
  obtain ⟨a, ha, hP⟩ := hderives us hus
  obtain ⟨b, hb, hP'⟩ := hderives' vs hvs
  exact hjoin us vs a b ha hP hb hP'

/-- A production in parentheses. -/
def InParentheses (R : Production α) : Production α := fun ts a =>
  ∃ t us u, ts = t :: (us ++ [u]) ∧ t.value = .symbol .leftParen ∧ R us a ∧
    u.value = .symbol .rightParen

theorem Renders.inParentheses (h : Renders closes text R P) :
    Renders anyChar ('(' :: (text ++ [')'])) (InParentheses R) P := by
  obtain ⟨ts, hwritten, hderives⟩ := h
  refine ⟨.symbol .leftParen :: (ts ++ [.symbol .rightParen]), ?_, ?_⟩
  · have hinside := hwritten.append_cons written_rightParen rfl
    exact written_leftParen.append hinside fun _ _ => ends_any _
  · intro located hlocated
    obtain ⟨t, rest, rfl, ht, hrest⟩ := List.map_eq_cons_iff.1 hlocated
    obtain ⟨us, closing, rfl, hus, hclosing⟩ := List.map_eq_append_iff.1 hrest
    obtain ⟨u, rest, rfl, hu, hrest⟩ := List.map_eq_cons_iff.1 hclosing
    obtain rfl := List.map_eq_nil_iff.1 hrest
    obtain ⟨a, ha, hP⟩ := hderives us hus
    exact ⟨a, ⟨t, us, u, rfl, ht, ha, hu⟩, hP⟩

end

/-! ## Chains -/

/-- Texts in parentheses with commas between them. -/
theorem toList_parenthesized {β : Type} (text : β → String) (first : β) (others : List β) :
    ("(" ++ ", ".intercalate ((first :: others).map text) ++ ")").toList =
      '(' :: (((text first).toList ++ others.flatMap fun x => [',', ' '] ++ (text x).toList) ++
        [')']) := by
  rw [String.toList_append, String.toList_append, toList_intercalate_map]
  rfl

/-- A separator between items, which ends the item in front of it. -/
structure Separates (sort : Char → Bool) (between : List Char) (separator : Symbol) : Prop where
  written : Written anyChar between [.symbol separator]
  ends : ∀ rest, Ends sort (between ++ rest)

/-- A chain of items is written with their texts one after the other and the separator between
them. What was read of an item is related to what was written. -/
theorem renders_chain {α β : Type} {separator : Symbol} {between : List Char}
    {sort : Char → Bool} {R : Production α} {P : β → α → Prop} {text : β → List Char}
    (hbetween : Separates sort between separator) {first : β} {others : List β}
    (h : ∀ x ∈ first :: others, Renders sort (text x) R (P x)) :
    Renders sort (text first ++ others.flatMap fun x => between ++ text x)
      (Chain separator R) fun a => List.Forall₂ P (first :: others) (a.1 :: a.2) := by
  induction others generalizing first with
  | nil =>
    obtain ⟨ts, hwritten, hderives⟩ := h first List.mem_cons_self
    refine ⟨ts, by simpa using hwritten, ?_⟩
    intro located hlocated
    obtain ⟨a, ha, hP⟩ := hderives located hlocated
    exact ⟨(a, []), .one ha, .cons hP .nil⟩
  | cons second others ih =>
    obtain ⟨ts, hwritten, hderives⟩ := h first List.mem_cons_self
    obtain ⟨us, hwritten', hderives'⟩ := ih fun x hx => h x (List.mem_cons_of_mem _ hx)
    refine ⟨ts ++ .symbol separator :: us, ?_, ?_⟩
    -- The separator ends the first item and lets any character follow.
    · have htail := hbetween.written.append hwritten' fun rest _ => ends_any _
      have hall := hwritten.append htail fun rest _ => by
        rw [List.append_assoc]
        exact hbetween.ends _
      simpa using hall
    · intro located hlocated
      obtain ⟨item, rest, rfl, hitem, hrest⟩ := List.map_eq_append_iff.1 hlocated
      obtain ⟨t, tail, rfl, ht, htail⟩ := List.map_eq_cons_iff.1 hrest
      obtain ⟨a, ha, hP⟩ := hderives item hitem
      obtain ⟨⟨b, bs⟩, hbs, hPs⟩ := hderives' tail htail
      exact ⟨(a, b :: bs), .more ha ht hbs, .cons hP hPs⟩

theorem separates_comma : Separates closes [',', ' '] .comma where
  written := written_comma.append Written.nil.blank fun _ _ => ends_any _
  ends _ := Ends.cons rfl _

/-- A symbol between blanks. -/
theorem separates_symbol {c : Char} {s : Symbol} (hsingle : Lexeme.single? c = some s)
    (hpair : Lexeme.pair? c ' ' = none) : Separates closes [' ', c, ' '] s where
  written := by
    have hsymbol : Written isSpace [c] [.symbol s] :=
      Written.of_lexes fun rest hrest => lexes_single hsingle fun d hd => by
        obtain rfl := of_decide_eq_true (hrest d hd)
        exact hpair
    have hblank : Written anyChar [' '] [] := Written.nil.blank
    exact (hsymbol.append_cons hblank rfl).blank
  ends _ := Ends.cons rfl _

theorem separates_ampersand : Separates closes [' ', '&', ' '] .ampersand :=
  separates_symbol rfl rfl

theorem separates_pipe : Separates closes [' ', '|', ' '] .pipe :=
  separates_symbol rfl rfl

end Criteria.Language
