import Criteria.Proofs.Language.Runs
import Criteria.Proofs.Schema.Hiding
import Criteria.Proofs.Structural.Runs

/-! # Hidden members

A member that a catalog hides cannot be told from one that does not exist: compilation, conversion
and ordering answer as they do over the schema without it (`hidden_like_removed`). All that can show
hidden members is the list of valid names at the end of a message.
-/

set_option autoImplicit false

namespace Criteria

/-- One message, or two that end in a list of names, the second without those that are hidden. -/
inductive MessagesAlike (hidden : List String) : String → String → Prop
  | same (message : String) : MessagesAlike hidden message message
  | listing (front : String) (names : List String) :
      MessagesAlike hidden (front ++ "[" ++ ", ".intercalate names ++ "]")
        (front ++ "[" ++ ", ".intercalate (names.filter (· ∉ hidden)) ++ "]")

/-- Equal results, or errors of one kind at one place with messages that are alike. -/
inductive AnswersAlike (hidden : List String) {α : Type} :
    Except CompileError α → Except CompileError α → Prop
  | ok (a : α) : AnswersAlike hidden (.ok a) (.ok a)
  | error {e e' : CompileError} (kind : e.kind = e'.kind) (location : e.location = e'.location)
      (message : MessagesAlike hidden e.message e'.message) :
      AnswersAlike hidden (.error e) (.error e')

theorem Unlists.kind {hidden : List String} {cause cause' : Cause}
    (h : Unlists hidden cause cause') : cause.kind = cause'.kind := by
  cases h with
  | same => rfl
  | attributes name type valid => rfl
  | relationships name type valid => rfl

/-! ## Messages -/

theorem message_unknownAttribute (name type : String) (valid : List String) :
    (Rejection.unknownAttribute name type valid).message =
      s!"Could not find attribute '{name}' on type '{type}'. Valid attributes: " ++ "[" ++
        ", ".intercalate valid ++ "]" := by
  have hopen : "'. Valid attributes: [" = "'. Valid attributes: " ++ "[" := by decide
  unfold Rejection.message
  dsimp only
  rw [hopen]
  simp only [toString, String.append_assoc]

theorem message_unknownRelationship (name type : String) (valid : List String) :
    (Rejection.unknownRelationship name type valid).message =
      s!"Could not find relationship '{name}' on type '{type}'. Valid relationships: " ++ "[" ++
        ", ".intercalate valid ++ "]" := by
  have hopen : "'. Valid relationships: [" = "'. Valid relationships: " ++ "[" := by decide
  unfold Rejection.message
  dsimp only
  rw [hopen]
  simp only [toString, String.append_assoc]

theorem Unlists.message {hidden : List String} {cause cause' : Cause}
    (h : Unlists hidden cause cause') : MessagesAlike hidden cause.message cause'.message := by
  cases h with
  | same => exact .same _
  | attributes name type valid =>
    show MessagesAlike hidden (Rejection.unknownAttribute _ _ _).message
      (Rejection.unknownAttribute _ _ _).message
    rw [message_unknownAttribute, message_unknownAttribute]
    exact .listing _ valid
  | relationships name type valid =>
    show MessagesAlike hidden (Rejection.unknownRelationship _ _ _).message
      (Rejection.unknownRelationship _ _ _).message
    rw [message_unknownRelationship, message_unknownRelationship]
    exact .listing _ valid

/-! ## Answers -/

theorem Follows.answersAlike {hidden : List String} {α : Type} {r r' : Except CompileError α}
    (h : Follows (Difference.unlisting hidden).errors r r') : AnswersAlike hidden r r' := by
  cases h with
  | ok a => exact .ok a
  | stopped h => cases h
  | error h =>
    obtain ⟨hlocation, hcause⟩ := h
    exact .error hcause.kind hlocation hcause.message

/-- Over a catalog with hidden members, the answers are those over the schema without them. -/
theorem hidden_like_removed (c : Catalog) (limits : Limits) (rootType : String) :
    (∀ source, AnswersAlike c.hidden (Language.compile c limits rootType source)
      (Language.compile c.prune limits rootType source)) ∧
    (∀ criteria, AnswersAlike c.hidden (Structural.convert c limits rootType criteria)
      (Structural.convert c.prune limits rootType criteria)) ∧
    ∀ direction criteria, AnswersAlike c.hidden
      (Structural.orderBy c direction rootType criteria)
      (Structural.orderBy c.prune direction rootType criteria) := by
  refine ⟨?_, ?_, ?_⟩
  · intro source
    exact (Language.compile_follows c.prune_follows (.refl limits) rootType source
      (.refl _)).answersAlike
  · intro criteria
    exact (Structural.convert_follows c.prune_follows (.refl limits) (.refl limits) rootType
      criteria).answersAlike
  · intro direction criteria
    exact (Structural.orderBy_follows c.prune_follows direction rootType criteria).answersAlike

end Criteria
