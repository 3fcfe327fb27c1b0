import Criteria.Proofs.Language.Cutting
import Criteria.Proofs.Language.LeafTokens
import Criteria.Proofs.Soundness

/-! # Where textual criteria fail

An error of a text that parses is about a leaf: it shows the text of this leaf at the line and
column of its first character, the leaf is rejected for the same reason when it is compiled on its
own, and every leaf in front of it compiles (`compile_error_at_leaf`).
-/

set_option autoImplicit false

namespace Criteria.Language

open Text

/-- The part of a source that writes a leaf: its tokens are a run of the source's tokens, which
starts behind what stands in front and ends where the text of the leaf does. -/
structure Leaf.Written (source : List Char) (leaf : Leaf) (front text back : List Char) :
    Prop where
  part : Part source leaf.extent front text back
  run : ∃ us run vs, tokensAt 0 source = .ok (us ++ run ++ vs) ∧ leaf.IsWritten run ∧
    Spans run leaf.extent

/-- Every leaf of a text that parses is written by a part of the text. -/
theorem exists_written {maxDepth : Nat} {source : String} {e : Expression}
    (h : Expression.parse maxDepth source = .ok e) {l : PlacedLeaf} (hl : l ∈ e.leaves) :
    ∃ front text back, l.leaf.Written source.toList front text back := by
  obtain ⟨ts, hts, hscattered⟩ := parse_scattered h
  obtain ⟨us, run, vs, rfl, hrun⟩ := hscattered.exists_run (List.mem_map_of_mem hl)
  obtain ⟨front, text, back, hpart, -⟩ := exists_part_of_run hts hrun.spans
  exact ⟨front, text, back, hpart, us, run, vs, hts, hrun, hrun.spans⟩

/-- A text that parses, about a type that the catalog has, fails with the fault of its
expression. -/
theorem exists_fault_of_compile {c : Catalog} {limits : Limits} {rootType source : String}
    {e : Expression} {error : CompileError} (hentity : ∃ entity, c.entity? rootType = some entity)
    (hparse : Expression.parse limits.maxDepth source = .ok e)
    (h : compile c limits rootType source = .error error) :
    ∃ fault, e.toPredicate c limits (Scope.root rootType) = .error fault ∧
      error = fault.rejection.inSource source.toList fault.extent := by
  unfold compile at h
  rw [hparse] at h
  dsimp only at h
  rw [Catalog.root_iff.2 ⟨hentity, rfl⟩] at h
  dsimp only at h
  split at h
  · rename_i fault hfault
    cases h
    exact ⟨fault, hfault, rfl⟩
  · cases h

/-- An error of a text that parses points at the first leaf that does not compile. -/
theorem compile_error_at_leaf {c : Catalog} {limits : Limits} {rootType source : String}
    {e : Expression} {error : CompileError} (hentity : ∃ entity, c.entity? rootType = some entity)
    (hparse : Expression.parse limits.maxDepth source = .ok e)
    (h : compile c limits rootType source = .error error) :
    ∃ l ∈ e.leaves, ∃ scope rejection front text back,
      l.scope c (Scope.root rootType) = .ok scope ∧
      l.leaf.compile c limits scope = .error rejection ∧
      l.leaf.Written source.toList front text back ∧
      error = ⟨.rejected rejection, .source
        ⟨front.count '\n' + 1, (lastLine front).length + 1, String.ofList text,
          (0, text.length)⟩⟩ ∧
      ∀ m ∈ e.leaves, m.leaf.extent.start < l.leaf.extent.start →
        ∃ p, m.compile c limits (Scope.root rootType) = .ok p := by
  obtain ⟨fault, hfault, rfl⟩ := exists_fault_of_compile hentity hparse h
  obtain ⟨before, l, behind, hleaves, hbefore, hl⟩ := e.toPredicate_firstFault hfault
  obtain ⟨scope, hscope, hrejected⟩ := hl.rejected
  have hmem : l ∈ e.leaves := by
    rw [hleaves]
    simp
  obtain ⟨front, text, back, hwritten⟩ := exists_written hparse hmem
  refine ⟨l, hmem, scope, fault.rejection, front, text, back, hscope, hrejected, hwritten, ?_, ?_⟩
  · have hpart := hwritten.part
    rw [Rejection.inSource, hl.extent, hpart.start, hpart.stop, hpart.split,
      Excerpt.ofRange_append]
  · -- A leaf that starts earlier is listed earlier, and those all compile.
    intro m hm hstart
    have hordered := parse_leaves_ordered hparse
    rw [hleaves] at hm hordered
    rcases List.mem_append.1 hm with hm | hm
    · exact hbefore m hm
    · rcases List.mem_cons.1 hm with rfl | hm
      · exact absurd hstart (Nat.lt_irrefl _)
      · have hlm := (List.pairwise_cons.1 (List.pairwise_append.1 hordered).2.1).1 m hm
        have hnonempty := hlm.nonempty
        have hapart := hlm.apart
        omega

/-- Persons of a name, or with a manager without shoes, as a text. -/
def shoelessText : String := "this.name = 'ü' |\nthis.manager.exists(this.shoe is null)"

/-- The tree of the text about shoes. -/
def shoeless : Expression :=
  .disjunction ⟨0, 57⟩
    (.binary ⟨0, 16⟩ (.path ⟨⟨.this, ⟨0, 4⟩⟩, [], ⟨"name", ⟨5, 9⟩⟩⟩) .eq
      ⟨.string "ü", ⟨12, 16⟩⟩)
    [.existence ⟨19, 57⟩ ⟨⟨.this, ⟨19, 23⟩⟩, [], ⟨"manager", ⟨24, 31⟩⟩⟩ .present
      (some (.unary ⟨39, 56⟩ (.path ⟨⟨.this, ⟨39, 43⟩⟩, [], ⟨"shoe", ⟨44, 48⟩⟩⟩) .isNull))]

/-- The error of the text about shoes, which persons do not have. -/
def shoelessError : CompileError :=
  ⟨.rejected (.unknownAttribute "shoe" "Person" ["name", "age"]),
    .source ⟨2, 21, "this.shoe is null", (0, 17)⟩⟩

theorem parse_shoelessText : Expression.parse 64 shoelessText = .ok shoeless := by
  cbv

theorem compile_shoelessText :
    compile staff {} "Person" shoelessText = .error shoelessError := by
  cbv

theorem shoelessError_at_leaf :
    ∃ l ∈ shoeless.leaves, ∃ scope rejection front text back,
      l.scope staff (Scope.root "Person") = .ok scope ∧
      l.leaf.compile staff {} scope = .error rejection ∧
      l.leaf.Written shoelessText.toList front text back ∧
      shoelessError = ⟨.rejected rejection, .source
        ⟨front.count '\n' + 1, (lastLine front).length + 1, String.ofList text,
          (0, text.length)⟩⟩ ∧
      ∀ m ∈ shoeless.leaves, m.leaf.extent.start < l.leaf.extent.start →
        ∃ p, m.compile staff {} (Scope.root "Person") = .ok p :=
  compile_error_at_leaf ⟨_, rfl⟩ parse_shoelessText compile_shoelessText

end Criteria.Language
