import Criteria.Language.Lexeme
import Criteria.Proofs.Schema.Resolution
import Criteria.Report.Excerpt

/-! # The layout of tokens

Every token stands at a place of its own in the text, and the tokens follow each other in the order
of these places, and so do runs of them (`Scattered.ordered`). What an error shows of a source is a
part of it (`Excerpt.ofRange_append`).
-/

set_option autoImplicit false

namespace Criteria

open Text

/-! ## Positions -/

theorem lastLine_append_singleton (cs : List Char) (c : Char) :
    lastLine (cs ++ [c]) = if c = '\n' then [] else lastLine cs ++ [c] := by
  unfold lastLine
  by_cases hc : c = '\n'
  · simp [hc]
  · simp [hc]

/-- The position behind a text: one line for each of its line feeds, and a column for each
character behind the last one. -/
theorem Position.foldl_advance (cs : List Char) :
    cs.foldl advance {} = ⟨cs.count '\n', (lastLine cs).length⟩ := by
  induction cs using List.reverseRecOn with
  | nil => rfl
  | append_singleton cs c ih =>
    rw [List.foldl_append, ih, List.foldl_cons, List.foldl_nil, advance, List.count_append,
      lastLine_append_singleton]
    by_cases hc : c = '\n'
    · simp [hc]
    · simp [hc]

/-- A boundary has the position behind what stands in front of it. -/
theorem Position.ofOffset_append (front back : List Char) :
    ofOffset (front ++ back) (utf8Length front) = ⟨front.count '\n', (lastLine front).length⟩ := by
  rw [ofOffset, takeBytes_utf8Length, foldl_advance]

/-- The excerpt of a part of a source is the text of this part, at the line and column of its first
character. -/
theorem Excerpt.ofRange_append (front text back : List Char) :
    ofRange (front ++ text ++ back) (utf8Length front) (utf8Length (front ++ text)) =
      ⟨front.count '\n' + 1, (lastLine front).length + 1, String.ofList text,
        (0, text.length)⟩ := by
  have hposition : Position.ofOffset (front ++ text ++ back) (utf8Length front) =
      ⟨front.count '\n', (lastLine front).length⟩ := by
    rw [List.append_assoc, Position.ofOffset_append]
  rw [ofRange, slice_append, hposition]

namespace Language

/-! ## Places of tokens -/

/-- A token cuts the text in front of its characters and behind them; the tokens that follow are
those of what stands behind. -/
theorem exists_word_of_tokensAt {position : Nat} {cs : List Char}
    {us vs : List (Located Token)} {t : Located Token}
    (h : tokensAt position cs = .ok (us ++ t :: vs)) :
    ∃ front word back, cs = front ++ word ++ back ∧ word ≠ [] ∧
      t.extent = ⟨position + utf8Length front, position + utf8Length (front ++ word)⟩ ∧
      tokensAt t.extent.stop back = .ok vs := by
  fun_induction tokensAt position cs generalizing us with
  | case1 =>
    cases us <;> cases h
  | case2 position c r hblank ih =>
    obtain ⟨front, word, back, rfl, hword, hextent, htail⟩ := ih h
    refine ⟨c :: front, word, back, rfl, hword, ?_, htail⟩
    rw [hextent]
    simp [Nat.add_assoc]
  | case3 => cases h
  | case4 => cases h
  | case5 position c r hblank lexeme hscan stop =>
    rename_i ih
    obtain ⟨tokens, htokens, h⟩ := bind_eq_ok.1 h
    have heq := Except.ok.inj h
    cases us with
    | nil =>
      -- The token is the first one: nothing stands in front of it.
      cases heq
      exact ⟨[], lexeme.text, lexeme.rest, lexeme.split.symm, lexeme.nonempty, rfl, htokens⟩
    | cons u us =>
      cases heq
      obtain ⟨front, word, back, hrest, hword, hextent, htail⟩ := ih htokens
      refine ⟨lexeme.text ++ front, word, back, ?_, hword, ?_, htail⟩
      · calc c :: r = lexeme.text ++ lexeme.rest := lexeme.split.symm
          _ = lexeme.text ++ (front ++ word ++ back) := by rw [hrest]
          _ = lexeme.text ++ front ++ word ++ back := by simp
      · rw [hextent]
        simp [stop, Nat.add_assoc]

/-- A range that is not empty ends before another one starts. -/
structure Extent.Before (e f : Extent) : Prop where
  nonempty : e.start < e.stop
  apart : e.stop ≤ f.start

theorem tokensAt_nonempty {position : Nat} {cs : List Char} {ts : List (Located Token)}
    (h : tokensAt position cs = .ok ts) {t : Located Token} (ht : t ∈ ts) :
    t.extent.start < t.extent.stop := by
  obtain ⟨us, vs, rfl⟩ := List.append_of_mem ht
  obtain ⟨front, word, back, -, hword, hextent, -⟩ := exists_word_of_tokensAt h
  obtain ⟨c, r, rfl⟩ := List.exists_cons_of_ne_nil hword
  have hc := c.utf8Size_pos
  rw [hextent]
  simp only [utf8Length_append, utf8Length_cons]
  omega

/-- A token starts and ends where the text may be cut. -/
theorem tokensAt_boundary {cs : List Char} {ts : List (Located Token)}
    (h : tokensAt 0 cs = .ok ts) {t : Located Token} (ht : t ∈ ts) :
    IsBoundary cs t.extent.start ∧ IsBoundary cs t.extent.stop := by
  obtain ⟨us, vs, rfl⟩ := List.append_of_mem ht
  obtain ⟨front, word, back, rfl, -, hextent, -⟩ := exists_word_of_tokensAt h
  rw [hextent, Nat.zero_add, Nat.zero_add]
  constructor
  · rw [List.append_assoc]
    exact .append front (word ++ back)
  · exact .append (front ++ word) back

/-- A token ends before the next one starts. -/
theorem tokensAt_ordered {position : Nat} {cs : List Char} {ts : List (Located Token)}
    (h : tokensAt position cs = .ok ts) : ts.Pairwise fun t u => t.extent.Before u.extent := by
  induction ts generalizing position cs with
  | nil => exact .nil
  | cons t vs ih =>
    have hfirst : tokensAt position cs = .ok ([] ++ t :: vs) := h
    obtain ⟨front, word, back, -, hword, hextent, htail⟩ := exists_word_of_tokensAt hfirst
    refine List.pairwise_cons.2 ⟨?_, ih htail⟩
    intro u hu
    refine ⟨tokensAt_nonempty h List.mem_cons_self, ?_⟩
    obtain ⟨between, rest, rfl⟩ := List.append_of_mem hu
    obtain ⟨front', word', back', -, -, hextent', -⟩ := exists_word_of_tokensAt htail
    rw [hextent']
    exact Nat.le_add_right _ _

/-! ## Places of runs -/

/-- A run of tokens starts and ends where the range does. -/
structure Spans (run : List (Located Token)) (extent : Extent) : Prop where
  first : ∃ t ts, run = t :: ts ∧ t.extent.start = extent.start
  last : ∃ ts t, run = ts ++ [t] ∧ t.extent.stop = extent.stop

namespace Spans

variable {ts us : List (Located Token)} {e f : Extent} {t : Located Token}

theorem single : Spans [t] t.extent := ⟨⟨t, [], rfl, rfl⟩, ⟨[], t, rfl, rfl⟩⟩

theorem append (left : Spans ts e) (right : Spans us f) : Spans (ts ++ us) ⟨e.start, f.stop⟩ := by
  obtain ⟨⟨t, ts', rfl, hstart⟩, -⟩ := left
  obtain ⟨-, ⟨us', u, rfl, hstop⟩⟩ := right
  exact ⟨⟨t, ts' ++ (us' ++ [u]), rfl, hstart⟩, ⟨t :: (ts' ++ us'), u, by simp, hstop⟩⟩

/-- Whatever stands between an opening and a closing token. -/
theorem between (t : Located Token) (ts : List (Located Token)) (u : Located Token) :
    Spans (t :: (ts ++ [u])) ⟨t.extent.start, u.extent.stop⟩ :=
  ⟨⟨t, _, rfl, rfl⟩, ⟨t :: ts, u, rfl, rfl⟩⟩

/-- The range of a run goes on to the last of the tokens behind it. -/
theorem upTo (left : Spans ts e) (t : Located Token) (us : List (Located Token))
    (u : Located Token) : Spans (ts ++ t :: (us ++ [u])) ⟨e.start, u.extent.stop⟩ := by
  have hspans := left.append (between t us u)
  exact hspans

/-- A run of tokens that stands in front of another one has its range in front of the other's. -/
theorem before (hts : Spans ts e) (hus : Spans us f)
    (h : (ts ++ us).Pairwise fun t u => t.extent.Before u.extent) : e.Before f := by
  obtain ⟨⟨t, ts', hfirst, hstart⟩, ⟨front, v, hlast, hstop⟩⟩ := hts
  obtain ⟨⟨u, us', rfl, hustart⟩, -⟩ := hus
  obtain ⟨hpairwise, -, hacross⟩ := List.pairwise_append.1 h
  have hv : v.extent.Before u.extent := hacross v (by simp [hlast]) u List.mem_cons_self
  have ht : t.extent.start ≤ v.extent.start := by
    rw [hfirst] at hpairwise hlast
    cases front with
    | nil =>
      cases hlast
      exact Nat.le_refl _
    | cons t' front =>
      cases hlast
      have htv := (List.pairwise_cons.1 hpairwise).1 v (by simp)
      exact Nat.le_trans (Nat.le_of_lt htv.nonempty) htv.apart
  have hnonempty := hv.nonempty
  have hapart := hv.apart
  constructor <;> omega

end Spans

/-- A part of a source: what stands in front of it, its text, and what stands behind it. -/
structure Part (source : List Char) (extent : Extent) (front text back : List Char) : Prop where
  split : source = front ++ text ++ back
  start : extent.start = utf8Length front
  stop : extent.stop = utf8Length (front ++ text)

/-! ## Runs one after the other -/

/-- Runs of the tokens write the items one after the other. Other tokens may stand between the
runs. -/
inductive Scattered {α : Type} (Writes : List (Located Token) → α → Prop) :
    List (Located Token) → List α → Prop
  | nil {ts : List (Located Token)} : Scattered Writes ts []
  | cons {gap run rest : List (Located Token)} {a : α} {as : List α} (h : Writes run a)
      (tail : Scattered Writes rest as) : Scattered Writes (gap ++ (run ++ rest)) (a :: as)

namespace Scattered

variable {α : Type} {Writes : List (Located Token) → α → Prop} {ts us : List (Located Token)}
  {a : α} {as bs : List α}

theorem single (h : Writes ts a) : Scattered Writes ts [a] := by
  have hscattered : Scattered Writes ([] ++ (ts ++ [])) [a] := .cons h .nil
  simpa using hscattered

theorem behind (ts : List (Located Token)) (h : Scattered Writes us bs) :
    Scattered Writes (ts ++ us) bs := by
  cases h with
  | nil => exact .nil
  | @cons gap run rest b bs h tail =>
    rw [← List.append_assoc]
    exact .cons h tail

theorem append (left : Scattered Writes ts as) (right : Scattered Writes us bs) :
    Scattered Writes (ts ++ us) (as ++ bs) := by
  induction left with
  | nil => exact right.behind _
  | @cons gap run rest a as h tail ih =>
    have hscattered : Scattered Writes (gap ++ (run ++ (rest ++ us))) (a :: (as ++ bs)) :=
      .cons h ih
    simpa using hscattered

theorem front (h : Scattered Writes ts as) (us : List (Located Token)) :
    Scattered Writes (ts ++ us) as := by
  have hscattered : Scattered Writes (ts ++ us) (as ++ []) := h.append .nil
  rwa [List.append_nil] at hscattered

/-- What stands between two tokens. -/
theorem between (t : Located Token) (h : Scattered Writes ts as) (u : Located Token) :
    Scattered Writes (t :: (ts ++ [u])) as :=
  (h.front [u]).behind [t]

theorem exists_run (h : Scattered Writes ts as) (ha : a ∈ as) :
    ∃ us run vs, ts = us ++ run ++ vs ∧ Writes run a := by
  induction h with
  | nil => cases ha
  | @cons gap run rest first as h tail ih =>
    rcases List.mem_cons.1 ha with rfl | ha
    · exact ⟨gap, run, rest, by simp, h⟩
    · obtain ⟨us, run', vs, rfl, hrun⟩ := ih ha
      exact ⟨gap ++ run ++ us, run', vs, by simp, hrun⟩

/-- The runs write other items in place of these. -/
theorem map {β : Type} {Writes' : List (Located Token) → β → Prop} {g : α → β}
    (hg : ∀ run a, Writes run a → Writes' run (g a)) (h : Scattered Writes ts as) :
    Scattered Writes' ts (as.map g) := by
  induction h with
  | nil => exact .nil
  | cons h tail ih => exact .cons (hg _ _ h) ih

/-- Where tokens follow each other, the items that their runs write do. -/
theorem ordered {extent : α → Extent} (hspans : ∀ run a, Writes run a → Spans run (extent a))
    (h : Scattered Writes ts as) (hts : ts.Pairwise fun t u => t.extent.Before u.extent) :
    as.Pairwise fun a b => (extent a).Before (extent b) := by
  induction h with
  | nil => exact .nil
  | @cons gap run rest a as h tail ih =>
    have hrest : rest.Pairwise fun t u => t.extent.Before u.extent :=
      hts.sublist ((List.sublist_append_right run rest).trans (List.sublist_append_right gap _))
    refine List.pairwise_cons.2 ⟨?_, ih hrest⟩
    intro b hb
    obtain ⟨us, run', vs, rfl, hwritten⟩ := tail.exists_run hb
    have hruns : (run ++ run').Sublist (gap ++ (run ++ (us ++ run' ++ vs))) := by
      have hrun' : run'.Sublist (us ++ (run' ++ vs)) :=
        (List.sublist_append_left run' vs).trans (List.sublist_append_right us _)
      rw [List.append_assoc us]
      exact (hrun'.append_left run).trans (List.sublist_append_right gap _)
    exact (hspans _ _ h).before (hspans _ _ hwritten) (hts.sublist hruns)

end Scattered

end Language

end Criteria
