import Criteria.Proofs.Predicate.Kept
import Criteria.Proofs.Schema.Loading

/-! # Walks through a schema

A walk looks names up one after the other, each from where the one before has led, and stays where
it is when a name means nothing. In a schema that is loaded no walk leaves the types of the schema
(`walk_within_schema`): whatever it has done so far, its scope is the one that its own names lead
to, and the only names it can fail on are those of members.
-/

set_option autoImplicit false

namespace Criteria

/-! ## Moves -/

/-- What a walk can do next. -/
inductive Move where
  | root (typeName : String)
  | navigate (name : String)
  | field (name : String)
  | attr (name : String)
  | checkRoot (name : String)
  | rebase
  deriving DecidableEq

/-- Where a walk stands, and the relationships it has followed since it last stood at a root. The
latter are noted apart from what the scope says. -/
structure Walk where
  scope : Scope
  followed : List String
  deriving DecidableEq

namespace Walk

/-- The walk that starts in a scope. -/
def start (s : Scope) : Walk := ⟨s, []⟩

/-- The walk in the scope to which a relationship has led. -/
def follow (w : Walk) (name : String) (s : Scope) : Walk := ⟨s, w.followed ++ [name]⟩

/-- The walk after the move, if the move succeeds. -/
def attempt (c : Catalog) (w : Walk) : Move → Except Rejection Walk
  | .root typeName => (c.root typeName).map start
  | .navigate name => (c.navigate w.scope name).map (w.follow name)
  | .field name =>
    (c.field w.scope name).map fun
      | .attr _ => w
      | .relationship s => w.follow name s
  | .attr name => (c.attributeRef w.scope name).map fun _ => w
  | .checkRoot name => (Catalog.checkRoot w.scope name).map fun _ => w
  | .rebase => .ok (start w.scope.rebase)

/-- The walk after the move. One that fails leaves it where it is. -/
def move (c : Catalog) (w : Walk) (m : Move) : Walk :=
  match w.attempt c m with
  | .ok next => next
  | .error _ => w

/-- The walk after all the moves. -/
def run (c : Catalog) (w : Walk) (moves : List Move) : Walk := moves.foldl (move c) w

end Walk

/-- The message says that a type is missing. -/
def Rejection.BlamesType (r : Rejection) : Prop :=
  "Could not find type".toList <+: r.message.toList

/-- What holds of a walk that has not left the schema. -/
structure Walk.WithinSchema (c : Catalog) (w : Walk) : Prop where
  /-- It stands on a type of the schema. -/
  type : ∃ e ∈ c.schema.types, e.name = w.scope.currentType
  /-- The names of its scope lead from the root there. -/
  again : (c.root w.scope.rootType >>= fun s => c.navigateAll s w.scope.navigation) = .ok w.scope
  /-- It has no path if it has followed no relationship. -/
  noPath : w.scope.relationshipPath? = none ↔ w.followed = []
  /-- Else its path is made of what it has followed, and leads where it stands. -/
  path : ∀ p, w.scope.relationshipPath? = some p →
    p = ⟨w.scope.rootType, w.followed, w.scope.currentType⟩
  /-- No name that it looks up from here fails for want of a type. -/
  lookups : ∀ name, ∀ m ∈ [Move.navigate name, .field name, .attr name],
    FailsWith (fun r => ¬ r.BlamesType) (w.attempt c m)

/-! ## Where a scope comes from -/

/-- The scope was reached over relationships that the catalog shows, between types of the schema. -/
structure Scope.Known (c : Catalog) (s : Scope) : Prop where
  reached : s.Reached c fun _ => True
  root : ∃ e, c.entity? s.rootType = some e
  type : ∃ e, c.entity? s.currentType = some e

/-- A relationship of a schema that is loaded leads to a type of the schema. -/
theorem SchemaDocument.entity?_target {d : SchemaDocument} {c : Catalog}
    (h : d.toSchema = .ok c.schema) {typeName name : String} {r : Relationship}
    (hr : c.relationship? typeName name = some r) : ∃ e, c.entity? r.target = some e := by
  obtain ⟨e, he, hmem, -⟩ := Catalog.exists_mem_of_relationship? hr
  obtain ⟨-, -, hmembers⟩ := exists_types h
  have htarget := (Schema.memberError?_eq_none.1 (hmembers e he)).2 r hmem
  exact Option.isSome_iff_exists.1 htarget

namespace Scope.Known

variable {d : SchemaDocument} {c : Catalog} {s : Scope}

theorem of_type {typeName : String} (h : ∃ e, c.entity? typeName = some e) :
    (Scope.root typeName).Known c :=
  ⟨.root typeName, h, h⟩

theorem enter (h : d.toSchema = .ok c.schema) (hs : s.Known c) {name : String} {r : Relationship}
    (hr : c.relationship? s.currentType name = some r) : (s.enter name r.target).Known c where
  reached := hs.reached.enter hr trivial
  root := hs.root
  type := SchemaDocument.entity?_target h hr

theorem again (hs : s.Known c) :
    (c.root s.rootType >>= fun start => c.navigateAll start s.navigation) = .ok s := by
  rw [bind_eq_ok]
  refine ⟨Scope.root s.rootType, Catalog.root_iff.2 ⟨hs.root, rfl⟩, ?_⟩
  rw [Catalog.navigateAll_iff]
  exact ⟨s.currentType, hs.reached.target, rfl⟩

end Scope.Known

/-! ## Names that mean nothing -/

namespace Rejection

theorem not_blamesType {r : Rejection} (front : String) (h : front.toList <+: r.message.toList)
    (hlength : "Could not find type".toList.length ≤ front.toList.length)
    (hfront : ¬ "Could not find type".toList <+: front.toList) : ¬ r.BlamesType :=
  fun htype => hfront (List.prefix_of_prefix_length_le htype h hlength)

theorem not_blamesType_unknownRelationship (name type : String) (valid : List String) :
    ¬ (unknownRelationship name type valid).BlamesType := by
  have hprefix : "Could not find relationship '".toList <+:
      (unknownRelationship name type valid).message.toList := by
    unfold message
    dsimp only
    simp only [toString, String.toList_append, List.append_assoc]
    exact List.prefix_append _ _
  exact not_blamesType _ hprefix (by decide) (by decide)

theorem not_blamesType_unknownAttribute (name type : String) (valid : List String) :
    ¬ (unknownAttribute name type valid).BlamesType := by
  have hprefix : "Could not find attribute '".toList <+:
      (unknownAttribute name type valid).message.toList := by
    unfold message
    dsimp only
    simp only [toString, String.toList_append, List.append_assoc]
    exact List.prefix_append _ _
  exact not_blamesType _ hprefix (by decide) (by decide)

theorem not_blamesType_unknownField (name type : String) :
    ¬ (unknownField name type).BlamesType := by
  have hprefix : "Could not find field '".toList <+:
      (unknownField name type).message.toList := by
    unfold message
    dsimp only
    simp only [toString, String.toList_append, List.append_assoc]
    exact List.prefix_append _ _
  exact not_blamesType _ hprefix (by decide) (by decide)

end Rejection

namespace Catalog

variable {c : Catalog} {s : Scope}

/-- The type of a scope that is known is never missing. -/
theorem failsWith_requireType {P : Rejection → Prop} (hs : s.Known c) :
    FailsWith P (c.requireType s.currentType) := by
  obtain ⟨e, he⟩ := hs.type
  rw [requireType_iff.2 he]
  exact .ok e

theorem failsWith_navigate (hs : s.Known c) (name : String) :
    FailsWith (fun r => ¬ r.BlamesType) (c.navigate s name) := by
  rw [navigate_eq_map]
  exact (MemberKind.failsWith_resolve (failsWith_requireType hs) fun _ _ =>
    Rejection.not_blamesType_unknownRelationship _ _ _).map _

theorem failsWith_attributeRef (hs : s.Known c) (name : String) :
    FailsWith (fun r => ¬ r.BlamesType) (c.attributeRef s name) := by
  rw [attributeRef_eq_map]
  exact (MemberKind.failsWith_resolve (failsWith_requireType hs) fun _ _ =>
    Rejection.not_blamesType_unknownAttribute _ _ _).map _

theorem failsWith_field (hs : s.Known c) (name : String) :
    FailsWith (fun r => ¬ r.BlamesType) (c.field s name) := by
  refine (failsWith_requireType hs).bind fun e _ => ?_
  split
  · exact .ok _
  · split
    · exact .ok _
    · exact .error (Rejection.not_blamesType_unknownField _ _)

end Catalog

/-! ## Moves within the schema -/

namespace Walk

variable {d : SchemaDocument} {c : Catalog} {w next : Walk} {m : Move}

/-- The scope is known, and its relationships are those that the walk has followed. -/
structure Kept (c : Catalog) (w : Walk) : Prop where
  known : w.scope.Known c
  followed : w.followed = w.scope.navigation

theorem Kept.start {typeName : String} (h : ∃ e, c.entity? typeName = some e) :
    (start (Scope.root typeName)).Kept c :=
  ⟨.of_type h, rfl⟩

theorem Kept.follow (h : d.toSchema = .ok c.schema) (hw : w.Kept c) {name : String}
    {r : Relationship} (hr : c.relationship? w.scope.currentType name = some r) :
    (w.follow name (w.scope.enter name r.target)).Kept c :=
  ⟨hw.known.enter h hr, congrArg (· ++ [name]) hw.followed⟩

/-- A move that succeeds keeps what a walk has kept so far. -/
theorem Kept.attempt (h : d.toSchema = .ok c.schema) (hw : w.Kept c)
    (hm : w.attempt c m = .ok next) : next.Kept c := by
  cases m with
  | root typeName =>
    obtain ⟨s, hs, rfl⟩ := map_eq_ok.1 hm
    obtain ⟨htype, rfl⟩ := Catalog.root_iff.1 hs
    exact .start htype
  | navigate name =>
    obtain ⟨s, hs, rfl⟩ := map_eq_ok.1 hm
    obtain ⟨r, hr, rfl⟩ := Catalog.navigate_iff.1 hs
    exact hw.follow h hr
  | field name =>
    obtain ⟨found, hfound, rfl⟩ := map_eq_ok.1 hm
    rcases Catalog.field_iff.1 hfound with ⟨a, -, rfl⟩ | ⟨-, r, hr, rfl⟩
    · exact hw
    · exact hw.follow h hr
  | attr name =>
    obtain ⟨_, -, rfl⟩ := map_eq_ok.1 hm
    exact hw
  | checkRoot name =>
    obtain ⟨_, -, rfl⟩ := map_eq_ok.1 hm
    exact hw
  | rebase =>
    cases hm
    exact .start hw.known.type

theorem Kept.move (h : d.toSchema = .ok c.schema) (hw : w.Kept c) (m : Move) :
    (w.move c m).Kept c := by
  unfold Walk.move
  split
  · exact hw.attempt h ‹_›
  · exact hw

theorem Kept.run (h : d.toSchema = .ok c.schema) (hw : w.Kept c) (moves : List Move) :
    (w.run c moves).Kept c := by
  induction moves generalizing w with
  | nil => exact hw
  | cons m moves ih => exact ih (hw.move h m)

theorem Kept.withinSchema (hw : w.Kept c) : w.WithinSchema c where
  type := by
    obtain ⟨e, he⟩ := hw.known.type
    exact ⟨e, List.mem_of_find?_eq_some he, Catalog.name_of_entity? he⟩
  again := hw.known.again
  noPath := by
    rw [hw.followed, Scope.relationshipPath?, Scope.isRoot]
    simp
  path := by
    intro p hp
    rw [Scope.relationshipPath?, Option.ite_none_left_eq_some] at hp
    rw [hw.followed]
    exact (Option.some.inj hp.2).symm
  lookups := by
    intro name m hm
    simp only [List.mem_cons, List.not_mem_nil, or_false] at hm
    rcases hm with rfl | rfl | rfl
    · exact (Catalog.failsWith_navigate hw.known name).map _
    · exact (Catalog.failsWith_field hw.known name).map _
    · exact (Catalog.failsWith_attributeRef hw.known name).map _

end Walk

/-- No walk leaves the schema, whatever its moves are and whichever of them fail. -/
theorem walk_within_schema {d : SchemaDocument} {c : Catalog} (h : d.toSchema = .ok c.schema)
    {typeName : String} {s : Scope} (hs : c.root typeName = .ok s) (moves : List Move) :
    ((Walk.start s).run c moves).WithinSchema c := by
  obtain ⟨htype, rfl⟩ := Catalog.root_iff.1 hs
  exact ((Walk.Kept.start htype).run h moves).withinSchema

/-- Customers and what they order. -/
def shopDocument : SchemaDocument :=
  ⟨[⟨"Person", [⟨"name", "string", false⟩], [⟨"orders", "Order", .many⟩]⟩,
    ⟨"Order", [⟨"total", "double", true⟩], [⟨"customer", "Person", .one⟩]⟩]⟩

/-- A shop that does not show its totals. -/
def shop : Catalog where
  schema :=
    ⟨[⟨"Person", [⟨"name", .string, false⟩], [⟨"orders", "Order", .many⟩], []⟩,
      ⟨"Order", [⟨"total", .double, true⟩], [⟨"customer", "Person", .one⟩], []⟩]⟩
  hidden := ["total"]

/-- To the orders of a person, past names that mean nothing there, and on from an order. -/
def shopMoves : List Move :=
  [.navigate "orders", .attr "total", .root "Invoice", .rebase, .field "customer",
    .checkRoot "Person", .navigate "orders"]

theorem shopMoves_within_schema :
    (Walk.start (Scope.root "Person")).run shop shopMoves =
        ⟨⟨"Order", ["customer", "orders"], "Order"⟩, ["customer", "orders"]⟩ ∧
      ((Walk.start (Scope.root "Person")).run shop shopMoves).WithinSchema shop :=
  have hroot : shop.root "Person" = .ok (Scope.root "Person") := rfl
  ⟨rfl, walk_within_schema (d := shopDocument) rfl hroot shopMoves⟩

end Criteria
