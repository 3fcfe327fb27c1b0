import Criteria.Json.Printer
import Criteria.Json.Reader
import Criteria.Proofs.Number.Followed
import Criteria.Proofs.Text.Parts

/-! # Text of JSON values, read back

What is escaped in a string is read back (`string?_escaped`), and so are values between the brackets
of an array or an object, with commas between them and blanks in front of them
(`ReadsAs.array`, `ReadsAs.object`). So the text of a value without numbers is read as the form that
the value has, whether it is written compactly or over several lines (`read?_compact`,
`read?_pretty`).
-/

set_option autoImplicit false

namespace Criteria.Json

open Number Text

/-! ## Strings -/

/-- A unit of a string that stands for the character. -/
inductive StringUnit.Writes : StringUnit → Char → Prop
  | char (c : Char) : Writes (.char c) c
  | escape {c : Char} (h : c.toNat < 0x20) : Writes (.escape c.toNat) c

theorem textOfUnits?_cons {unit : StringUnit} {c : Char} (h : unit.Writes c)
    (units : List StringUnit) :
    textOfUnits? (unit :: units) = (textOfUnits? units).map (c :: ·) := by
  cases h with
  | char => rfl
  | escape h =>
    have hhigh : ¬(0xD800 ≤ c.toNat ∧ c.toNat < 0xDC00) := by omega
    have hlow : ¬(0xDC00 ≤ c.toNat ∧ c.toNat < 0xE000) := by omega
    have hany : ¬(0xD800 ≤ c.toNat ∧ c.toNat < 0xE000) := by omega
    cases units with
    | nil => simp [textOfUnits?, hany, Char.ofNat_toNat]
    | cons second units =>
      cases second with
      | char d => simp [textOfUnits?, hany, Char.ofNat_toNat]
      | escape n => rw [textOfUnits?, if_neg hhigh, if_neg hlow, Char.ofNat_toNat]

/-- How a character is escaped: not at all, by a letter, or by its number. -/
inductive EscapedAs (c : Char) : List Char → Prop
  | plain (hquote : c ≠ '"') (hbackslash : c ≠ '\\') (h : ¬c.toNat < 0x20) : EscapedAs c [c]
  | letter {e : Char} (h : unescape? e = some c) : EscapedAs c ['\\', e]
  | number {a b : Char} (h : c.toNat < 0x20) (hvalue : hexValue? ['0', '0', a, b] = some c.toNat) :
      EscapedAs c ['\\', 'u', '0', '0', a, b]

/-- The last two digits of the escape of a control character. -/
theorem exists_hexPair {n : Nat} (h : n < 0x20) :
    ∃ a b, hexPair n = [a, b] ∧ hexValue? ['0', '0', a, b] = some n := by
  interval_cases n <;> exact ⟨_, _, rfl, rfl⟩

theorem escapedAs_escaped (c : Char) : EscapedAs c (escaped c) := by
  unfold escaped
  split
  case h_8 c hquote hbackslash _ _ _ _ _ =>
    split
    · rename_i hless
      obtain ⟨a, b, hpair, hvalue⟩ := exists_hexPair hless
      rw [hpair]
      exact .number hless hvalue
    · rename_i hless
      exact .plain hquote hbackslash hless
  all_goals exact .letter rfl

/-- An escaped character is read as a unit that stands for it. -/
theorem stringUnits?_escaped (c : Char) {cs : List Char} {units : List StringUnit}
    {rest : List Char} {hlt : rest.length < cs.length}
    (h : stringUnits? cs = some (units, ⟨rest, hlt⟩)) :
    ∃ unit hlt', unit.Writes c ∧
      stringUnits? (escaped c ++ cs) = some (unit :: units, ⟨rest, hlt'⟩) := by
  have hescaped := escapedAs_escaped c
  generalize escaped c = text at hescaped
  cases hescaped with
  | plain hquote hbackslash hless =>
    refine ⟨.char c, Nat.lt_succ_of_lt hlt, .char c, ?_⟩
    show stringUnits? (c :: cs) = _
    rw [stringUnits?, if_neg hless, h]
    · rfl
    · exact hquote
    · exact fun _ _ _ _ _ hc _ => hbackslash hc
    · exact fun _ _ hc _ => hbackslash hc
  | @letter e he =>
    refine ⟨.char c, Nat.lt_succ_of_lt (Nat.lt_succ_of_lt hlt), .char c, ?_⟩
    show stringUnits? ('\\' :: e :: cs) = _
    rw [stringUnits?, he, h]
    · rfl
    · rintro _ _ _ _ _ rfl _
      cases he
  | @number a b hless hvalue =>
    have hlt' : rest.length < cs.length + 6 := by omega
    refine ⟨.escape c.toNat, hlt', .escape hless, ?_⟩
    show stringUnits? ('\\' :: 'u' :: '0' :: '0' :: a :: b :: cs) = _
    rw [stringUnits?, hvalue, h]
    rfl

/-- An escaped string is read back. -/
theorem string?_escaped (s rest : List Char) :
    ∃ hlt, string? (s.flatMap escaped ++ '"' :: rest) =
      some (some (String.ofList s), ⟨rest, hlt⟩) := by
  have hunits : ∃ units hlt, stringUnits? (s.flatMap escaped ++ '"' :: rest) =
      some (units, ⟨rest, hlt⟩) ∧ textOfUnits? units = some s := by
    induction s with
    | nil =>
      show ∃ units hlt, stringUnits? ('"' :: rest) = some (units, ⟨rest, hlt⟩) ∧ _
      exact ⟨[], Nat.lt_succ_self _, by rw [stringUnits?]; rfl, rfl⟩
    | cons c s ih =>
      obtain ⟨units, hlt, hread, htext⟩ := ih
      obtain ⟨unit, hlt', hwrites, hread'⟩ := stringUnits?_escaped c hread
      rw [List.flatMap_cons, List.append_assoc]
      exact ⟨unit :: units, hlt', hread', by rw [textOfUnits?_cons hwrites, htext]; rfl⟩
  obtain ⟨units, hlt, hread, htext⟩ := hunits
  refine ⟨hlt, ?_⟩
  rw [string?, hread, Option.map_some]
  dsimp only
  rw [htext]
  rfl

/-! ## Blanks and marks -/

/-- Nothing but blanks. -/
def Blanks (cs : List Char) : Prop := ∀ c ∈ cs, isBlank c = true

section

variable {lead : List Char} (hlead : Blanks lead) {c d : Char}
include hlead

theorem skip_cons (h : isBlank c = false) (r : List Char) :
    ∃ hle, skip (lead ++ c :: r) = ⟨c :: r, hle⟩ := by
  have hskip : skipBlanks (lead ++ c :: r) = c :: r := by
    rw [skipBlanks, List.dropWhile_append_of_pos hlead, List.dropWhile_cons_of_neg (by simp [h])]
  exact ⟨by simp, Subtype.ext hskip⟩

theorem after?_cons (h : isBlank c = false) (r : List Char) :
    ∃ hlt, after? c (lead ++ c :: r) = some ⟨r, hlt⟩ := by
  obtain ⟨hle, hskip⟩ := skip_cons hlead h r
  refine ⟨by simp; omega, ?_⟩
  rw [after?, hskip]
  dsimp only
  rw [if_pos rfl]

theorem after?_of_ne (h : isBlank d = false) (hne : d ≠ c) (r : List Char) :
    after? c (lead ++ d :: r) = none := by
  obtain ⟨hle, hskip⟩ := skip_cons hlead h r
  rw [after?, hskip]
  dsimp only
  rw [if_neg hne]

end

theorem blanks_nil : Blanks [] := List.forall_mem_nil _

theorem after?_self {c : Char} (h : isBlank c = false) (r : List Char) :
    after? c (c :: r) = some (.tail c r) := by
  obtain ⟨_, hafter⟩ := after?_cons blanks_nil h r
  exact hafter

/-! ## Values -/

/-- What ends every value in front of it. -/
def Stops (rest : List Char) : Prop := ∀ c ∈ rest.head?, Numeral.IsForeign c

theorem stops_nil : Stops [] := nofun

theorem stops_cons {c : Char} (h : Numeral.IsForeign c) (rest : List Char) : Stops (c :: rest) := by
  rintro _ ⟨⟩
  exact h

theorem stops_blanks {trail : List Char} (htrail : Blanks trail) {c : Char}
    (h : Numeral.IsForeign c) (rest : List Char) : Stops (trail ++ c :: rest) := by
  cases trail with
  | nil => exact stops_cons h rest
  | cons d trail => exact stops_cons (Numeral.isForeign_of_isBlank (htrail d List.mem_cons_self)) _

/-- Behind blanks, the text is read as the form in front of whatever ends a value. -/
def ReadsAs (text : List Char) (raw : Raw) : Prop :=
  ∀ lead rest, Blanks lead → Stops rest →
    ∃ hlt, Raw.value? (lead ++ (text ++ rest)) = some (raw, ⟨rest, hlt⟩)

theorem readsAs_null : ReadsAs "null".toList .null := by
  intro lead rest hlead _
  obtain ⟨hle, hskip⟩ := skip_cons hlead (by decide : isBlank 'n' = false) (['u', 'l', 'l'] ++ rest)
  refine ⟨by simp; omega, ?_⟩
  show Raw.value? (lead ++ 'n' :: (['u', 'l', 'l'] ++ rest)) = _
  rw [Raw.value?, hskip]
  rfl

theorem readsAs_boolean (b : Bool) :
    ReadsAs (if b then "true" else "false").toList (.boolean b) := by
  intro lead rest hlead _
  cases b with
  | true =>
    obtain ⟨hle, hskip⟩ := skip_cons hlead (by decide : isBlank 't' = false)
      (['r', 'u', 'e'] ++ rest)
    refine ⟨by simp; omega, ?_⟩
    show Raw.value? (lead ++ 't' :: (['r', 'u', 'e'] ++ rest)) = _
    rw [Raw.value?, hskip]
    rfl
  | false =>
    obtain ⟨hle, hskip⟩ :=
      skip_cons hlead (by decide : isBlank 'f' = false) (['a', 'l', 's', 'e'] ++ rest)
    refine ⟨by simp; omega, ?_⟩
    show Raw.value? (lead ++ 'f' :: (['a', 'l', 's', 'e'] ++ rest)) = _
    rw [Raw.value?, hskip]
    rfl

theorem toList_stringText (s : String) :
    (stringText s).toList = '"' :: (s.toList.flatMap escaped ++ ['"']) := by
  simp [stringText]

theorem readsAs_string (s : String) : ReadsAs (stringText s).toList (.string (some s)) := by
  intro lead rest hlead _
  obtain ⟨hlt, hread⟩ := string?_escaped s.toList rest
  rw [String.ofList_toList] at hread
  have htext : (stringText s).toList ++ rest =
      '"' :: (s.toList.flatMap escaped ++ '"' :: rest) := by
    simp [toList_stringText]
  obtain ⟨hle, hskip⟩ :=
    skip_cons hlead (by decide : isBlank '"' = false) (s.toList.flatMap escaped ++ '"' :: rest)
  rw [htext]
  refine ⟨by simp; omega, ?_⟩
  rw [Raw.value?, hskip]
  dsimp only
  rw [hread]
  rfl

/-- A numeral as documents have it. -/
structure IsNumber (text : List Char) (n : Numeral) : Prop where
  span : Numeral.span? text = some (n, text, [])
  leading : hasLeadingZero n.whole = false

theorem IsNumber.readsAs {text : List Char} {n : Numeral} (h : IsNumber text n) :
    ReadsAs text (.number n) := by
  intro lead rest hlead hrest
  have hspan : Numeral.span? (text ++ rest) = some (n, text, rest) := by
    cases rest with
    | nil =>
      rw [List.append_nil]
      exact h.span
    | cons d back =>
      rw [Numeral.span?_followed (hrest d rfl), h.span]
      rfl
  obtain ⟨c, r, rfl, hc⟩ := Numeral.exists_first h.span
  rw [List.cons_append] at hspan ⊢
  have hlt := Numeral.span?_length_lt hspan
  have hread : number? (c :: (r ++ rest)) = some (n, ⟨rest, hlt⟩) := by
    unfold number?
    split
    · rename_i hnone
      cases hspan.symm.trans hnone
    · rename_i hsome
      cases hspan.symm.trans hsome
      rw [if_neg (by rw [h.leading]; decide)]
  obtain ⟨hle, hskip⟩ := skip_cons hlead (Numeral.isBlank_first hc) (r ++ rest)
  refine ⟨by simp at hlt ⊢; omega, ?_⟩
  rw [Raw.value?, hskip]
  dsimp only
  split
  case h_7 =>
    rw [hread]
    rfl
  all_goals exact absurd hc (by decide)

/-! ## Brackets -/

/-- Items with commas between them and blanks in front of each. -/
theorem items?_joined {lead trail : List Char} (hlead : Blanks lead) (htrail : Blanks trail)
    {part : List Char} {raw : Raw} (hpart : ReadsAs part raw) {parts : List (List Char)}
    {raws : List Raw} (hparts : List.Forall₂ ReadsAs parts raws) (rest : List Char) :
    ∃ hlt, Raw.items? (lead ++ (part ++ ((parts.flatMap fun p => ',' :: (lead ++ p)) ++
      (trail ++ ']' :: rest)))) = some (raw :: raws, ⟨rest, hlt⟩) := by
  induction hparts generalizing part raw with
  | nil =>
    obtain ⟨hvalue, hreadValue⟩ :=
      hpart lead (trail ++ ']' :: rest) hlead (stops_blanks htrail (by decide) rest)
    obtain ⟨hclosing, hreadClosing⟩ := after?_cons htrail (by decide : isBlank ']' = false) rest
    rw [List.flatMap_nil, List.nil_append]
    refine ⟨Nat.lt_trans hclosing hvalue, ?_⟩
    rw [Raw.items?]
    simp only [Option.bind_eq_bind, Option.bind_some, hreadValue]
    rw [after?_of_ne htrail (by decide) (by decide), hreadClosing]
    rfl
  | @cons next nextRaw parts raws hnext hparts ih =>
    obtain ⟨hbehind, hreadBehind⟩ := ih hnext
    generalize hall : lead ++ (next ++ ((parts.flatMap fun p => ',' :: (lead ++ p)) ++
      (trail ++ ']' :: rest))) = behind at hbehind hreadBehind
    have htext : ((next :: parts).flatMap fun p => ',' :: (lead ++ p)) ++ (trail ++ ']' :: rest) =
        ',' :: behind := by
      simp [← hall]
    obtain ⟨hvalue, hreadValue⟩ := hpart lead (',' :: behind) hlead (stops_cons (by decide) _)
    rw [htext]
    refine ⟨Nat.lt_trans (Nat.lt_succ_of_lt hbehind) hvalue, ?_⟩
    rw [Raw.items?]
    simp only [Option.bind_eq_bind, Option.bind_some, hreadValue]
    rw [after?_self (by decide)]
    simp only [Rest.tail, hreadBehind]
    rfl

/-- The text of a member: its name in quotes, a colon, and behind blanks the text of its value. -/
inductive IsMember : List Char → Option String × Raw → Prop
  | mk {name : String} {gap text : List Char} {raw : Raw} (hgap : Blanks gap)
      (h : ReadsAs text raw) :
      IsMember ((stringText name).toList ++ ':' :: (gap ++ text)) (some name, raw)

/-- A member is read part by part, up to what ends its value. -/
theorem IsMember.exists_reads {text : List Char} {member : Option String × Raw}
    (h : IsMember text member) {lead rest : List Char} (hlead : Blanks lead) (hrest : Stops rest) :
    ∃ (a : Rest (lead ++ (text ++ rest))) (b : Rest a.val) (c : Rest b.val)
      (hlt : rest.length < c.val.length),
      after? '"' (lead ++ (text ++ rest)) = some a ∧ string? a.val = some (member.1, b) ∧
      after? ':' b.val = some c ∧ Raw.value? c.val = some (member.2, ⟨rest, hlt⟩) := by
  obtain @⟨name, gap, text, raw, hgap, h⟩ := h
  have htext : (stringText name).toList ++ ':' :: (gap ++ text) ++ rest =
      '"' :: (name.toList.flatMap escaped ++ '"' :: ':' :: (gap ++ (text ++ rest))) := by
    simp [toList_stringText]
  obtain ⟨hopening, hreadOpening⟩ := after?_cons hlead (by decide : isBlank '"' = false)
    (name.toList.flatMap escaped ++ '"' :: ':' :: (gap ++ (text ++ rest)))
  obtain ⟨hname, hreadName⟩ := string?_escaped name.toList (':' :: (gap ++ (text ++ rest)))
  obtain ⟨hvalue, hreadValue⟩ := h gap rest hgap hrest
  rw [String.ofList_toList] at hreadName
  rw [htext]
  exact ⟨⟨_, hopening⟩, ⟨_, hname⟩, .tail ':' _, hvalue, hreadOpening, hreadName,
    after?_self (by decide) _, hreadValue⟩

/-- Members with commas between them and blanks in front of each. -/
theorem members?_joined {lead trail : List Char} (hlead : Blanks lead) (htrail : Blanks trail)
    {part : List Char} {member : Option String × Raw} (hpart : IsMember part member)
    {parts : List (List Char)} {members : List (Option String × Raw)}
    (hparts : List.Forall₂ IsMember parts members) (rest : List Char) :
    ∃ hlt, Raw.members? (lead ++ (part ++ ((parts.flatMap fun p => ',' :: (lead ++ p)) ++
      (trail ++ '\x7d' :: rest)))) = some (member :: members, ⟨rest, hlt⟩) := by
  induction hparts generalizing part member with
  | nil =>
    obtain ⟨hclosing, hreadClosing⟩ := after?_cons htrail (by decide : isBlank '\x7d' = false) rest
    obtain ⟨⟨a, ha⟩, ⟨b, hb⟩, ⟨c, hc⟩, hvalue, hopening, hname, hcolon, hreadValue⟩ :=
      hpart.exists_reads hlead (stops_blanks htrail (by decide : Numeral.IsForeign '\x7d') rest)
    rw [List.flatMap_nil, List.nil_append]
    dsimp only at hb hc hvalue hname hcolon hreadValue
    refine ⟨by omega, ?_⟩
    rw [Raw.members?]
    simp only [Option.bind_eq_bind, Option.bind_some, hopening, hname, hcolon, hreadValue]
    rw [after?_of_ne htrail (by decide) (by decide), hreadClosing]
    rfl
  | @cons next nextMember parts members hnext hparts ih =>
    obtain ⟨hbehind, hreadBehind⟩ := ih hnext
    generalize hall : lead ++ (next ++ ((parts.flatMap fun p => ',' :: (lead ++ p)) ++
      (trail ++ '\x7d' :: rest))) = behind at hbehind hreadBehind
    have htext : ((next :: parts).flatMap fun p => ',' :: (lead ++ p)) ++
        (trail ++ '\x7d' :: rest) = ',' :: behind := by
      simp [← hall]
    obtain ⟨⟨a, ha⟩, ⟨b, hb⟩, ⟨c, hc⟩, hvalue, hopening, hname, hcolon, hreadValue⟩ :=
      hpart.exists_reads hlead (stops_cons (by decide : Numeral.IsForeign ',') behind)
    rw [htext]
    dsimp only at hb hc hvalue hname hcolon hreadValue
    refine ⟨by simp only [List.length_cons] at hvalue; omega, ?_⟩
    rw [Raw.members?]
    simp only [Option.bind_eq_bind, Option.bind_some, hopening, hname, hcolon, hreadValue]
    rw [after?_self (by decide)]
    simp only [Rest.tail, hreadBehind]
    rfl

/-- No value begins with a closing bracket, so neither do the items of an array. -/
theorem after?_of_items? {cs : List Char} {items : List Raw × Rest cs}
    (h : Raw.items? cs = some items) : after? ']' cs = none := by
  rw [after?]
  split
  · rfl
  · rename_i d r hle hskip
    rw [if_neg]
    rintro rfl
    have hspan : Numeral.span? (']' :: r) = none := rfl
    have hnumber : number? (']' :: r) = none := by
      unfold number?
      split
      · rfl
      · rename_i hsome
        cases hspan.symm.trans hsome
    have hvalue : Raw.value? cs = none := by
      rw [Raw.value?, hskip]
      change (number? (']' :: r)).bind _ = none
      rw [hnumber]
      rfl
    rw [Raw.items?, hvalue] at h
    cases h

/-- The parts between brackets, with commas between them and blanks in front of each and behind the
last. -/
def bracketed (opening closing : Char) (lead trail : List Char) : List (List Char) → List Char
  | [] => [opening, closing]
  | part :: parts =>
    opening :: (lead ++ (part ++ ((parts.flatMap fun p => ',' :: (lead ++ p)) ++
      (trail ++ [closing]))))

section

variable {lead trail : List Char} (hlead : Blanks lead) (htrail : Blanks trail)
include hlead htrail

theorem ReadsAs.array {parts : List (List Char)} {raws : List Raw}
    (h : List.Forall₂ ReadsAs parts raws) :
    ReadsAs (bracketed '[' ']' lead trail parts) (.array raws) := by
  intro before rest hbefore _
  cases h with
  | nil =>
    obtain ⟨hle, hskip⟩ := skip_cons hbefore (by decide : isBlank '[' = false) (']' :: rest)
    refine ⟨by simp [bracketed]; omega, ?_⟩
    show Raw.value? (before ++ '[' :: ']' :: rest) = _
    rw [Raw.value?, hskip]
    dsimp only
    rw [after?_self (by decide)]
    rfl
  | @cons part raw parts raws hpart hparts =>
    obtain ⟨hlt, hread⟩ := items?_joined hlead htrail hpart hparts rest
    have hopen := after?_of_items? hread
    generalize hall : lead ++ (part ++ ((parts.flatMap fun p => ',' :: (lead ++ p)) ++
      (trail ++ ']' :: rest))) = inner at hlt hread hopen
    have htext : bracketed '[' ']' lead trail (part :: parts) ++ rest = '[' :: inner := by
      simp [bracketed, ← hall]
    obtain ⟨hle, hskip⟩ := skip_cons hbefore (by decide : isBlank '[' = false) inner
    rw [htext]
    refine ⟨by simp; omega, ?_⟩
    rw [Raw.value?, hskip]
    dsimp only
    rw [hopen, hread]
    rfl

theorem ReadsAs.object {parts : List (List Char)} {members : List (Option String × Raw)}
    (h : List.Forall₂ IsMember parts members) :
    ReadsAs (bracketed '\x7b' '\x7d' lead trail parts) (.object members) := by
  intro before rest hbefore _
  cases h with
  | nil =>
    obtain ⟨hle, hskip⟩ := skip_cons hbefore (by decide : isBlank '\x7b' = false) ('\x7d' :: rest)
    refine ⟨by simp [bracketed]; omega, ?_⟩
    show Raw.value? (before ++ '\x7b' :: '\x7d' :: rest) = _
    rw [Raw.value?, hskip]
    dsimp only
    rw [after?_self (by decide)]
    rfl
  | @cons part member parts members hpart hparts =>
    obtain ⟨hlt, hread⟩ := members?_joined hlead htrail hpart hparts rest
    have hopen : after? '\x7d' (lead ++ (part ++ ((parts.flatMap fun p => ',' :: (lead ++ p)) ++
        (trail ++ '\x7d' :: rest)))) = none := by
      cases hpart
      rw [toList_stringText]
      exact after?_of_ne hlead (by decide) (by decide) _
    generalize hall : lead ++ (part ++ ((parts.flatMap fun p => ',' :: (lead ++ p)) ++
      (trail ++ '\x7d' :: rest))) = inner at hlt hread hopen
    have htext : bracketed '\x7b' '\x7d' lead trail (part :: parts) ++ rest = '\x7b' :: inner := by
      simp [bracketed, ← hall]
    obtain ⟨hle, hskip⟩ := skip_cons hbefore (by decide : isBlank '\x7b' = false) inner
    rw [htext]
    refine ⟨by simp; omega, ?_⟩
    rw [Raw.value?, hskip]
    dsimp only
    rw [hopen, hread]
    rfl

end

/-! ## Layouts -/

/-- Parts without blanks, as a value is written compactly. -/
theorem toList_brackets (parts : List String) {opening closing : String} {o c : Char}
    (hopening : opening.toList = [o]) (hclosing : closing.toList = [c]) :
    (opening ++ ",".intercalate parts ++ closing).toList =
      bracketed o c [] [] (parts.map String.toList) := by
  cases parts with
  | nil => simp [bracketed, hopening, hclosing]
  | cons part parts =>
    rw [String.toList_append, String.toList_append, toList_intercalate_cons, hopening, hclosing]
    simp [bracketed, List.flatMap_map]

/-- The start of a new line at a level. -/
def newLine (level : Nat) : List Char := '\n' :: (indent level).toList

theorem blanks_newLine (level : Nat) : Blanks (newLine level) := by
  have hindent : ∀ c ∈ List.replicate (2 * level) ' ', isBlank c = true := by
    intro c hc
    rw [List.eq_of_mem_replicate hc]
    rfl
  rw [newLine, indent, String.toList_ofList]
  exact List.forall_mem_cons.2 ⟨rfl, hindent⟩

/-- Parts of which each stands on a line of its own. -/
theorem toList_block (level : Nat) (parts : List String) {opening closing : String} {o c : Char}
    (hopening : opening.toList = [o]) (hclosing : closing.toList = [c]) :
    (block opening closing level parts).toList =
      bracketed o c (newLine (level + 1)) (newLine level) (parts.map String.toList) := by
  cases parts with
  | nil => simp [block, bracketed, hopening, hclosing]
  | cons part parts =>
    rw [block, if_neg (by simp)]
    simp only [String.toList_append, toList_intercalate_map, hopening, hclosing]
    simp [bracketed, newLine, List.flatMap_map]

/-! ## Forms -/

mutual

/-- The form that a value without numbers has. -/
def form? : Json → Option Raw
  | null => some .null
  | boolean b => some (.boolean b)
  | number _ => none
  | string s => some (.string (some s))
  | array items => (itemForms? items).map .array
  | object members => (memberForms? members).map .object

/-- The forms of the items of an array. -/
def itemForms? : List Json → Option (List Raw)
  | [] => some []
  | item :: items => do
    let raw ← item.form?
    let raws ← itemForms? items
    some (raw :: raws)

/-- The members of an object with the forms of their values. -/
def memberForms? : List (String × Json) → Option (List (Option String × Raw))
  | [] => some []
  | (name, value) :: members => do
    let raw ← value.form?
    let raws ← memberForms? members
    some ((some name, raw) :: raws)

end

/-- What arrays and objects take over from their parts, and other values have. -/
structure Inherited (P : Json → Raw → Prop) : Prop where
  null : P .null .null
  boolean (b : Bool) : P (.boolean b) (.boolean b)
  string (s : String) : P (.string s) (.string (some s))
  array {items : List Json} {raws : List Raw} (h : List.Forall₂ P items raws) :
    P (.array items) (.array raws)
  object {members : List (String × Json)} {raws : List (Option String × Raw)}
    (h : List.Forall₂ (fun m raw => raw.1 = some m.1 ∧ P m.2 raw.2) members raws) :
    P (.object members) (.object raws)

section

variable {P : Json → Raw → Prop}

mutual

theorem Inherited.of_form? (hP : Inherited P) : ∀ (value : Json) {raw : Raw},
    value.form? = some raw → P value raw
  | .null, _, h => by
    cases h
    exact hP.null
  | .boolean b, _, h => by
    cases h
    exact hP.boolean b
  | .number _, _, h => by cases h
  | .string s, _, h => by
    cases h
    exact hP.string s
  | .array items, _, h => by
    obtain ⟨raws, hraws, rfl⟩ := Option.map_eq_some_iff.1 h
    exact hP.array (hP.of_itemForms? items hraws)
  | .object members, _, h => by
    obtain ⟨raws, hraws, rfl⟩ := Option.map_eq_some_iff.1 h
    exact hP.object (hP.of_memberForms? members hraws)

theorem Inherited.of_itemForms? (hP : Inherited P) : ∀ (items : List Json) {raws : List Raw},
    itemForms? items = some raws → List.Forall₂ P items raws
  | [], _, h => by
    cases h
    exact .nil
  | item :: items, _, h => by
    simp only [itemForms?, Option.bind_eq_bind, Option.bind_eq_some_iff] at h
    obtain ⟨raw, hraw, raws, hraws, ⟨⟩⟩ := h
    exact .cons (hP.of_form? item hraw) (hP.of_itemForms? items hraws)

theorem Inherited.of_memberForms? (hP : Inherited P) : ∀ (members : List (String × Json))
    {raws : List (Option String × Raw)}, memberForms? members = some raws →
    List.Forall₂ (fun m raw => raw.1 = some m.1 ∧ P m.2 raw.2) members raws
  | [], _, h => by
    cases h
    exact .nil
  | (name, value) :: members, _, h => by
    simp only [memberForms?, Option.bind_eq_bind, Option.bind_eq_some_iff] at h
    obtain ⟨raw, hraw, raws, hraws, ⟨⟩⟩ := h
    exact .cons ⟨rfl, hP.of_form? value hraw⟩ (hP.of_memberForms? members hraws)

end

end

theorem compactItems_eq_map (items : List Json) : compactItems items = items.map compact := by
  induction items with
  | nil => rfl
  | cons item items ih => rw [compactItems, ih, List.map_cons]

theorem compactMembers_eq_map (members : List (String × Json)) :
    compactMembers members = members.map fun m => stringText m.1 ++ ":" ++ m.2.compact := by
  induction members with
  | nil => rfl
  | cons m members ih => rw [compactMembers, ih, List.map_cons]

theorem prettyItems_eq_map (level : Nat) (items : List Json) :
    prettyItems level items = items.map (prettyAt level) := by
  induction items with
  | nil => rfl
  | cons item items ih => rw [prettyItems, ih, List.map_cons]

theorem prettyMembers_eq_map (level : Nat) (members : List (String × Json)) :
    prettyMembers level members =
      members.map fun m => stringText m.1 ++ ": " ++ m.2.prettyAt level := by
  induction members with
  | nil => rfl
  | cons m members ih => rw [prettyMembers, ih, List.map_cons]

/-- A value written without blanks reads as its form. -/
theorem inherited_compact : Inherited fun value raw => ReadsAs value.compact.toList raw where
  null := readsAs_null
  boolean := readsAs_boolean
  string := readsAs_string
  array := by
    intro items raws hitems
    rw [compact, compactItems_eq_map, toList_brackets _ rfl rfl]
    refine .array blanks_nil blanks_nil ?_
    simpa only [List.forall₂_map_left_iff] using hitems
  object := by
    intro members raws hmembers
    rw [compact, compactMembers_eq_map, toList_brackets _ rfl rfl]
    refine .object blanks_nil blanks_nil ?_
    simp only [List.forall₂_map_left_iff]
    refine hmembers.imp ?_
    rintro ⟨name, value⟩ ⟨_, raw⟩ ⟨rfl, hvalue⟩
    simpa using IsMember.mk blanks_nil hvalue

/-- A value written over several lines reads as its form, at whichever level its brackets close. -/
theorem inherited_prettyAt :
    Inherited fun value raw => ∀ level, ReadsAs (value.prettyAt level).toList raw where
  null _ := readsAs_null
  boolean b _ := readsAs_boolean b
  string s _ := readsAs_string s
  array := by
    intro items raws hitems level
    rw [prettyAt, prettyItems_eq_map, toList_block _ _ rfl rfl]
    refine .array (blanks_newLine _) (blanks_newLine _) ?_
    simp only [List.forall₂_map_left_iff]
    exact hitems.imp fun item raw hitem => hitem (level + 1)
  object := by
    intro members raws hmembers level
    rw [prettyAt, prettyMembers_eq_map, toList_block _ _ rfl rfl]
    refine .object (blanks_newLine _) (blanks_newLine _) ?_
    simp only [List.forall₂_map_left_iff]
    refine hmembers.imp ?_
    rintro ⟨name, value⟩ ⟨_, raw⟩ ⟨rfl, hvalue⟩
    have hgap : Blanks [' '] := List.forall_mem_singleton.2 rfl
    simpa using IsMember.mk hgap (hvalue (level + 1))

/-! ## Documents -/

/-- A document that holds a value and nothing else. -/
theorem ReadsAs.read? {text : String} {raw : Raw} (h : ReadsAs text.toList raw) :
    Raw.read? text = some raw := by
  have hvalue := h [] [] blanks_nil stops_nil
  rw [List.nil_append, List.append_nil] at hvalue
  obtain ⟨hlt, hvalue⟩ := hvalue
  rw [Raw.read?, hvalue]
  rfl

theorem read?_compact {value : Json} {raw : Raw} (h : value.form? = some raw) :
    Raw.read? value.compact = some raw :=
  (inherited_compact.of_form? value h).read?

theorem read?_pretty {value : Json} {raw : Raw} (h : value.form? = some raw) :
    Raw.read? value.pretty = some raw :=
  (inherited_prettyAt.of_form? value h 0).read?

end Criteria.Json
