import PropDoc.Documentation
import PropDoc.Proofs.Json.RoundTrip
import PropDoc.Proofs.Signature.Json

/-!
# Reading documentation back

The documentation of a project is read back from its text without loss. The text is parsed to one
value in either layout, no object in that value has a key twice, and a reader of such values gives
the documentation. Only a reference that is named like a keyword cannot be told from the keyword.
-/

namespace PropDoc

namespace Table

variable {α : Type}

/-- The table that an object writes, given what its values write. -/
def ofJson? (decode : Json → Option α) : Json → Option (Table α)
  | .object members =>
    (members.mapM fun member ↦ (decode member.2).map fun value ↦ (member.1, value)).bind
      fun entries ↦ if h : (entries.map Prod.fst).Nodup then some ⟨entries, h⟩ else none
  | _ => none

private theorem mapM_entries {encode : α → Json} {decode : Json → Option α}
    {entries : List (String × α)}
    (h : ∀ entry ∈ entries, decode (encode entry.2) = some entry.2) :
    (entries.map fun entry ↦ (entry.1, encode entry.2)).mapM
      (fun member ↦ (decode member.2).map fun value ↦ (member.1, value)) = some entries := by
  induction entries with
  | nil => rfl
  | cons entry entries ih =>
    have hentry := h entry List.mem_cons_self
    have hentries := ih fun other hother ↦ h other (List.mem_cons_of_mem entry hother)
    rw [List.map_cons, List.mapM_cons, hentry, hentries]
    rfl

private theorem ofJson?_entries {encode : α → Json} {decode : Json → Option α} {table : Table α}
    (h : ∀ entry ∈ table.entries, decode (encode entry.2) = some entry.2) :
    ofJson? decode (.object (table.entries.map fun entry ↦ (entry.1, encode entry.2))) =
      some table := by
  rw [ofJson?, mapM_entries h, Option.bind_some, dif_pos table.nodup]

private theorem distinctKeys_entries {encode : α → Json}
    (h : ∀ value, (encode value).DistinctKeys) (table : Table α) :
    (Json.object (table.entries.map fun entry ↦ (entry.1, encode entry.2))).DistinctKeys := by
  constructor
  · rw [List.map_map]
    exact table.nodup
  · intro member hmember
    obtain ⟨entry, -, rfl⟩ := List.mem_map.mp hmember
    exact h entry.2

end Table

namespace PropRecord

/-- The default that the first of some members writes, if it does, and the members after it. -/
def splitDefault : List (String × Json) → Option String × List (String × Json)
  | ("defaultValue", .object [("value", .string text), ("computed", .bool false)]) :: rest =>
    (some text, rest)
  | rest => (none, rest)

/-- The description that the last members write, if they are what ends a record. -/
def descriptionIn? : List (String × Json) → Option (Option String)
  | [] => some none
  | [("description", .string text)] => some (some text)
  | _ => none

/-- The record that a value writes. -/
def ofJson? : Json → Option PropRecord
  | .object (("required", .bool required) :: rest) =>
    match splitDefault rest with
    | (default?, ("tsType", type) :: rest) =>
      (Signature.ofJson? type).bind fun type ↦
        (descriptionIn? rest).map fun description? ↦ { required, default?, type, description? }
    | _ => none
  | _ => none

private theorem ofJson?_toJson {record : PropRecord}
    (h : Signature.Free record.type.references) : ofJson? record.toJson = some record := by
  obtain ⟨required, default?, type, description?⟩ := record
  have htype := Signature.ofJson?_toJson h
  cases default? <;> cases description? <;>
    simp [toJson, ofJson?, splitDefault, defaultJson, descriptionIn?, htype]

private theorem distinctKeys_toJson (record : PropRecord) : record.toJson.DistinctKeys := by
  obtain ⟨required, default?, type, description?⟩ := record
  have htype := Signature.distinctKeys_toJson type
  have hdefault : ∀ text, (defaultJson text).DistinctKeys := fun text ↦
    .object (by simp) (by simp [Json.DistinctKeys.string, Json.DistinctKeys.bool])
  cases default? <;> cases description? <;>
    exact .object (by simp) (by simp [Json.DistinctKeys.string, Json.DistinctKeys.bool, htype,
      hdefault])

end PropRecord

namespace ComponentDoc

/-- The names of the references in the types of a component's props. -/
def references (doc : ComponentDoc) : List String :=
  doc.props.values.flatMap fun record ↦ record.type.references

/-- The documentation of a component that a value writes. -/
def ofJson? : Json → Option ComponentDoc
  | .object [("description", .string description), ("props", props)] =>
    (Table.ofJson? PropRecord.ofJson? props).map fun props ↦ { description, props }
  | _ => none

private theorem ofJson?_toJson {doc : ComponentDoc} (h : Signature.Free doc.references) :
    ofJson? doc.toJson = some doc := by
  have hprops : Table.ofJson? PropRecord.ofJson? doc.props.toJson = some doc.props := by
    apply Table.ofJson?_entries
    intro entry hentry
    apply PropRecord.ofJson?_toJson
    intro name hname
    apply h
    exact List.mem_flatMap.mpr ⟨entry.2, List.mem_map_of_mem hentry, hname⟩
  rw [toJson, ofJson?, hprops]
  rfl

private theorem distinctKeys_toJson (doc : ComponentDoc) : doc.toJson.DistinctKeys := by
  have hprops := Table.distinctKeys_entries PropRecord.distinctKeys_toJson doc.props
  refine .object (by simp) ?_
  simp [Json.DistinctKeys.string, PropTable.toJson, hprops]

end ComponentDoc

namespace ProjectDoc

/-- The names of the references in the documentation of a project. -/
def references (docs : ProjectDoc) : List String := docs.values.flatMap ComponentDoc.references

/-- The documentation of a project that a value writes. -/
def ofJson? : Json → Option ProjectDoc := Table.ofJson? ComponentDoc.ofJson?

private theorem ofJson?_toJson {docs : ProjectDoc} (h : Signature.Free docs.references) :
    ofJson? docs.toJson = some docs := by
  apply Table.ofJson?_entries
  intro entry hentry
  apply ComponentDoc.ofJson?_toJson
  intro name hname
  apply h
  exact List.mem_flatMap.mpr ⟨entry.2, List.mem_map_of_mem hentry, hname⟩

/-- The text of a project's documentation is read back without loss. Both layouts are parsed to
the same value, no object in it has a key twice, and the documentation is read from it, provided
that no reference is named like a keyword. -/
theorem ofJson?_parse?_render (docs : ProjectDoc)
    (h : ∀ name ∈ docs.references, name ∉ Signature.keywords) :
    ∃ json, Json.parse? (docs.render false) = some json ∧
      Json.parse? (docs.render true) = some json ∧ json.DistinctKeys ∧
      ofJson? json = some docs := by
  refine ⟨docs.toJson, Json.parse?_render false docs.toJson, Json.parse?_render true docs.toJson,
    ?_, ofJson?_toJson h⟩
  exact Table.distinctKeys_entries ComponentDoc.distinctKeys_toJson docs

/-- Documentation whose types are easily taken for one another. -/
def lookAlikes : ProjectDoc :=
  ⟨[("cards/\"Card\".tsx",
    { description := "A card.\n\tWith a \\ and a bell \x07."
      props := ⟨[
        ("array", ⟨true, some "[]", .array (.literal "1"), none⟩),
        ("tuple", ⟨false, none, .tuple [.literal "1"], some ""⟩),
        ("union", ⟨false, some "", .union [.reference "literal"], some "One or the other."⟩),
        ("onClose", ⟨true, none, .function [⟨"event", .reference "union"⟩] (.primitive .void),
          none⟩),
        ("options", ⟨true, none, .object [⟨.name "string", false, .reference "signature"⟩,
          ⟨.index "string", true, .object []⟩], none⟩)], by decide⟩ })], by decide⟩

/-- Types that are easily taken for one another, and texts with quotes and controls, are told apart
when they are read back. -/
theorem ofJson?_parse?_render_lookAlikes :
    (∀ name ∈ lookAlikes.references, name ∉ Signature.keywords) ∧
    ∃ json, Json.parse? (lookAlikes.render false) = some json ∧
      Json.parse? (lookAlikes.render true) = some json ∧ json.DistinctKeys ∧
      ofJson? json = some lookAlikes :=
  ⟨by decide, ofJson?_parse?_render lookAlikes (by decide)⟩

end ProjectDoc

end PropDoc
