import Criteria.Proofs.Json.Texts
import Criteria.Schema.Document

/-! # Documents read back

What is written for a schema document is read as the document again, whichever names it has and
however many types and members (`SchemaDocument.read?_written`). Whatever shapes a text took for its
records, the text that is written for what it holds declares the same schema, or is refused with the
same error.
-/

set_option autoImplicit false

namespace Criteria

open Json

namespace Json

variable {α : Type}

/-! ## Records -/

/-- The value has a form, and what is read from that form is `a`. -/
def IsRead (read? : Raw → Option α) (value : Json) (a : α) : Prop :=
  ∃ raw, value.form? = some raw ∧ read? raw = some a

theorem isRead_text (s : String) : IsRead Raw.text? (.string s) s := ⟨_, rfl, rfl⟩

theorem isRead_flag (b : Bool) : IsRead Raw.flag? (.boolean b) b := ⟨_, rfl, rfl⟩

theorem isRead_choice {named? : String → Option α} {name : String} {a : α}
    (h : named? name = some a) : IsRead (Raw.choice? named?) (.string name) a := ⟨_, rfl, h⟩

theorem isRead_list {item? : Raw → Option α} {toJson : α → Json}
    (h : ∀ a, IsRead item? (toJson a) a) (items : List α) :
    IsRead (Raw.list? item?) (.array (items.map toJson)) items := by
  have hitems : ∃ raws, itemForms? (items.map toJson) = some raws ∧
      raws.mapM item? = some items := by
    induction items with
    | nil => exact ⟨[], rfl, rfl⟩
    | cons a items ih =>
      obtain ⟨raw, hform, hread⟩ := h a
      obtain ⟨raws, hforms, hreads⟩ := ih
      exact ⟨raw :: raws, by simp [itemForms?, hform, hforms], by simp [hread, hreads]⟩
  obtain ⟨raws, hforms, hreads⟩ := hitems
  exact ⟨.array raws, by rw [form?, hforms, Option.map_some], hreads⟩

/-- A field is present as the form of the member of its name. -/
inductive IsField : String × Json → String × Raw → Prop
  | mk {name : String} {value : Json} {raw : Raw} (h : value.form? = some raw) :
      IsField (name, value) (name, raw)

theorem memberForms?_of_isField {members : List (String × Json)} {fields : Fields}
    (h : List.Forall₂ IsField members fields) :
    memberForms? members = some (fields.map fun field => (some field.1, field.2)) := by
  induction h with
  | nil => rfl
  | cons hfield _ ih =>
    obtain ⟨hform⟩ := hfield
    rw [memberForms?, hform, ih]
    rfl

/-- Members of declared names, none of them given twice, are the fields. -/
theorem fieldsOfMembers?_declared {names : List String} (undeclared : Undeclared)
    {done fields : Fields} (hnames : ∀ field ∈ fields, field.1 ∈ names)
    (hnodup : ((done ++ fields).map (·.1)).Nodup) :
    fieldsOfMembers? names undeclared done (fields.map fun field => (some field.1, field.2)) =
      some (done ++ fields) := by
  induction fields generalizing done with
  | nil => rw [List.map_nil, fieldsOfMembers?, List.append_nil]
  | cons field fields ih =>
    obtain ⟨hname, hnames⟩ := List.forall_mem_cons.1 hnames
    have hfresh : ¬done.any (·.1 = field.1) = true := by
      rw [List.map_append, List.nodup_append] at hnodup
      rw [List.any_eq_true]
      rintro ⟨other, hother, heq⟩
      exact hnodup.2.2 other.1 (List.mem_map_of_mem hother) field.1 List.mem_cons_self
        (of_decide_eq_true heq)
    rw [List.append_cons] at hnodup ⊢
    rw [List.map_cons, fieldsOfMembers?, if_pos hname, if_neg hfresh]
    exact ih hnames hnodup

/-- An object with one member for each declared name is read from these members alone. -/
theorem isRead_record {undeclared : Undeclared} {names : List String}
    {members : List (String × Json)} {fields : Fields} {ofFields? : Fields → Option α} {a : α}
    (hnames : fields.map (·.1) = names) (hnodup : names.Nodup)
    (h : List.Forall₂ IsField members fields)
    (hread : ofFields? fields = some a) :
    IsRead (fun raw => (raw.fields? names undeclared).bind ofFields?) (.object members) a := by
  subst hnames
  refine ⟨.object _, by rw [form?, memberForms?_of_isField h, Option.map_some], ?_⟩
  have hfields : (Raw.object (fields.map fun field => (some field.1, field.2))).fields?
      (fields.map (·.1)) undeclared = some fields :=
    fieldsOfMembers?_declared undeclared (fun field hfield => List.mem_map_of_mem hfield) hnodup
  dsimp only
  rw [hfields]
  exact hread

end Json

/-! ## Declarations -/

theorem AttributeDocument.isRead_toJson (a : AttributeDocument) : IsRead ofRaw? a.toJson a := by
  obtain ⟨name, hname, hreadName⟩ := isRead_text a.name
  obtain ⟨valueType, hvalueType, hreadValueType⟩ := isRead_text a.valueType
  obtain ⟨nullable, hnullable, hreadNullable⟩ := isRead_flag a.nullable
  refine isRead_record rfl (by decide)
    (.cons (.mk hname) (.cons (.mk hvalueType) (.cons (.mk hnullable) .nil))) ?_
  simp [Fields.required?, Fields.optional?, List.lookup, hreadName, hreadValueType, hreadNullable]

theorem RelationshipDocument.isRead_toJson (r : RelationshipDocument) :
    IsRead ofRaw? r.toJson r := by
  obtain ⟨name, hname, hreadName⟩ := isRead_text r.name
  obtain ⟨target, htarget, hreadTarget⟩ := isRead_text r.target
  obtain ⟨cardinality, hcardinality, hreadCardinality⟩ :=
    isRead_choice (Cardinality.ofTag?_tag r.cardinality)
  refine isRead_record rfl (by decide)
    (.cons (.mk hname) (.cons (.mk htarget) (.cons (.mk hcardinality) .nil))) ?_
  simp [Fields.required?, Fields.optional?, List.lookup, hreadName, hreadTarget, hreadCardinality]

theorem TypeDocument.isRead_toJson (t : TypeDocument) : IsRead ofRaw? t.toJson t := by
  obtain ⟨name, hname, hreadName⟩ := isRead_text t.name
  obtain ⟨attributes, hattributes, hreadAttributes⟩ :=
    isRead_list AttributeDocument.isRead_toJson t.attributes
  obtain ⟨relationships, hrelationships, hreadRelationships⟩ :=
    isRead_list RelationshipDocument.isRead_toJson t.relationships
  refine isRead_record rfl (by decide)
    (.cons (.mk hname) (.cons (.mk hattributes) (.cons (.mk hrelationships) .nil))) ?_
  simp [Fields.required?, Fields.optional?, List.lookup, hreadName, hreadAttributes,
    hreadRelationships]

namespace SchemaDocument

theorem isRead_toJson (d : SchemaDocument) : IsRead ofRaw? d.toJson d := by
  obtain ⟨types, htypes, hreadTypes⟩ := isRead_list TypeDocument.isRead_toJson d.types
  refine isRead_record rfl (by decide) (.cons (.mk htypes) .nil) ?_
  simp [Fields.required?, List.lookup, hreadTypes]

/-! ## Texts -/

/-- The texts that are written for a document: without blanks, or over several lines. -/
inductive Writes (d : SchemaDocument) : String → Prop
  | compact : Writes d d.toJson.compact
  | pretty : Writes d d.toJson.pretty

theorem Writes.read? {d : SchemaDocument} {written : String} (h : d.Writes written) :
    SchemaDocument.read? written = some d := by
  obtain ⟨raw, hform, hread⟩ := d.isRead_toJson
  have hraw : Raw.read? written = some raw := by
    cases h with
    | compact => exact read?_compact hform
    | pretty => exact read?_pretty hform
  rw [SchemaDocument.read?, hraw]
  exact hread

/-- A document is read back from what is written for it. So if a text holds a document, whichever
shapes it took, then what is written for the document holds the same one, and declares the same
schema or is refused with the same error. -/
theorem read?_written :
    (∀ (d : SchemaDocument) (written : String), d.Writes written → read? written = some d) ∧
      ∀ (text : String) (d : SchemaDocument) (written : String), read? text = some d →
        d.Writes written →
          read? written = read? text ∧
            (read? written).map toSchema = (read? text).map toSchema := by
  refine ⟨fun d written hwrites => hwrites.read?, ?_⟩
  intro text d written htext hwrites
  have hsame : read? written = read? text := hwrites.read?.trans htext.symm
  exact ⟨hsame, by rw [hsame]⟩

/-- Nodes of a graph. -/
def graphDocument : SchemaDocument :=
  ⟨[⟨"Node", [⟨"id", "string", false⟩], [⟨"next", "Node", .many⟩]⟩]⟩

/-- A text may declare them by records that are arrays, with fields in another order or left out, a
cardinality that is an object, and a member that is not declared. -/
def graphText : String :=
  "\x7b\"v\":0,\"types\":[[\"Node\",[[\"id\",\"string\"]]," ++
    "[\x7b\"target\":\"Node\",\"name\":\"next\",\"cardinality\":\x7b\"many\":null\x7d\x7d]]]\x7d"

theorem graphText_written :
    read? graphText = some graphDocument ∧
      read? graphDocument.toJson.compact = some graphDocument ∧
      read? graphDocument.toJson.pretty = read? graphText ∧
      (read? graphDocument.toJson.pretty).map toSchema = (read? graphText).map toSchema := by
  have hread : read? graphText = some graphDocument := by cbv
  exact ⟨hread, read?_written.1 _ _ .compact, read?_written.2 _ _ _ hread .pretty⟩

end SchemaDocument

end Criteria
