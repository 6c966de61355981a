import EntityQuery.Proofs.DeclarationOrder
import EntityQuery.Proofs.Json.Reading

/-!
# Schemas as documents

A list of entities and a list of metadata properties that are written as a document come back from
it as they were, whether they make a schema or not. So reading the document has the outcome that
making the schema has, and every schema is read from its own document (`Schema.documents_agree`).
-/

namespace EntityQuery

/-! ## §1 The tree that is written -/

theorem Attribute.exact_toJson (a : Attribute) : a.toJson.Exact :=
  .object (by simp [Json.Exact.text])

theorem Entity.exact_toJson (e : Entity) : e.toJson.Exact := by
  have hparent : (e.parent.elim Json.null Json.text).Exact := by
    cases e.parent with
    | none => exact .null
    | some parent => exact .text parent
  have hattributes : (Json.array (e.attributes.map Attribute.toJson)).Exact := by
    apply Json.Exact.array
    intro item hitem
    obtain ⟨a, -, rfl⟩ := List.mem_map.mp hitem
    exact a.exact_toJson
  exact .object (by simp [Json.Exact.text, hparent, hattributes])

theorem MetadataProperty.exact_toJson (p : MetadataProperty) : p.toJson.Exact :=
  .object (by simp [Json.Exact.text])

theorem Schema.exact_partsToJson (es : List Entity) (ms : List MetadataProperty) :
    (partsToJson es ms).Exact := by
  have hentities : (Json.array (es.map Entity.toJson)).Exact := by
    apply Json.Exact.array
    intro item hitem
    obtain ⟨e, -, rfl⟩ := List.mem_map.mp hitem
    exact e.exact_toJson
  have hmetadata : (Json.array (ms.map MetadataProperty.toJson)).Exact := by
    apply Json.Exact.array
    intro item hitem
    obtain ⟨p, -, rfl⟩ := List.mem_map.mp hitem
    exact p.exact_toJson
  exact .object (by simp [hentities, hmetadata])

/-! ## §2 Reading the tree -/

theorem DataType.ofJson?_name (t : DataType) : ofJson? (.text t.name) = some t :=
  ofName?_name t

theorem Attribute.ofJson?_toJson (a : Attribute) : ofJson? a.toJson = some a := by
  simp [ofJson?, toJson, Json.record?, Json.hasDistinct, List.lookup_cons, Json.asText?,
    Json.withDefault, DataType.ofJson?_name]

theorem Attribute.listOfJson?_toJson (attributes : List Attribute) :
    listOfJson? (.array (attributes.map toJson)) = some attributes :=
  Json.mapM_map_eq_some fun a _ => a.ofJson?_toJson

theorem Entity.ofJson?_toJson (e : Entity) : ofJson? e.toJson = some e := by
  obtain ⟨name, parent, uniqueKey, attributes⟩ := e
  cases parent <;> simp [ofJson?, toJson, Json.record?, Json.hasDistinct, List.lookup_cons,
    Json.asText?, Json.withDefault, Json.optional, Attribute.listOfJson?_toJson]

theorem MetadataProperty.ofJson?_toJson (p : MetadataProperty) : ofJson? p.toJson = some p := by
  simp [ofJson?, toJson, Json.record?, Json.hasDistinct, List.lookup_cons, Json.asText?,
    Json.withDefault, DataType.ofJson?_name]

theorem MetadataProperty.listOfJson?_toJson (ms : List MetadataProperty) :
    listOfJson? (.array (ms.map toJson)) = some ms :=
  Json.mapM_map_eq_some fun p _ => p.ofJson?_toJson

namespace Schema

theorem partsOfJson?_partsToJson (es : List Entity) (ms : List MetadataProperty) :
    partsOfJson? (partsToJson es ms) = some (es, ms) := by
  have hentities : (es.map Entity.toJson).mapM Entity.ofJson? = some es :=
    Json.mapM_map_eq_some fun e _ => e.ofJson?_toJson
  simp [partsOfJson?, partsToJson, Json.record?, Json.hasDistinct, List.lookup_cons, Json.asArray?,
    Json.withDefault, MetadataProperty.listOfJson?_toJson, hentities, -List.mapM_map]

/-! ## §3 Documents -/

/-- Reading the document of some lists is making the schema of these lists. -/
theorem parse_compact_partsToJson (es : List Entity) (ms : List MetadataProperty) :
    parse (partsToJson es ms).compact = (ofEntities es ms).mapError .invalid := by
  rw [parse, (exact_partsToJson es ms).parse_compact, Option.bind_some, partsOfJson?_partsToJson]

theorem ofEntities_eq_ok_iff {es : List Entity} {ms : List MetadataProperty} {s : Schema} :
    ofEntities es ms = .ok s ↔ s.entities = es ∧ s.metadata = ms := by
  constructor
  · exact of_ofEntities
  · rintro ⟨rfl, rfl⟩
    -- the entities of a schema break no rule
    exact ofEntities_of_violation?_eq_none s.valid

/-- Whether the end of the document is looked at before or after the schema is made, the same
documents are accepted for the same schemas. -/
theorem deserialize_eq_ok_iff {document : String} {s : Schema} :
    deserialize document = .ok s ↔ parse document = .ok s := by
  unfold deserialize parse
  -- both take a value off the front of the document and look at what is left, sooner or later
  cases hread : Json.readValue (document.toList.length + 1) document.toList with
  | none =>
    have hparse : Json.parse document = none := by rw [Json.parse, hread]; rfl
    simp [hread, hparse]
  | some read =>
    obtain ⟨json, rest⟩ := read
    rw [Json.parse_of_readValue hread]
    cases hparts : partsOfJson? json with
    | none => split_ifs <;> simp [hread, hparts]
    | some parts =>
      obtain ⟨es, ms⟩ := parts
      cases hmade : ofEntities es ms <;> split_ifs with hend <;>
        simp [hread, hparts, hmade, hend, bind, Except.bind, pure, Except.pure, Except.mapError]

/-- A document that was written for some lists is read as the schema of these lists, or with the
error that they have; so it is never malformed. Every schema is read from its own document, and so
the document is the same when it is written again. Where a schema is read as one value among others,
the same documents are accepted. -/
theorem documents_agree (es : List Entity) (ms : List MetadataProperty) :
    (parse (partsToJson es ms).compact = (ofEntities es ms).mapError .invalid ∧
      ∀ s, parse (partsToJson es ms).compact = .ok s ↔ s.entities = es ∧ s.metadata = ms) ∧
    (∀ s : Schema, parse s.serialize = .ok s) ∧
    ∀ document s, deserialize document = .ok s ↔ parse document = .ok s := by
  have hparse : ∀ es ms s, parse (partsToJson es ms).compact = .ok s ↔
      s.entities = es ∧ s.metadata = ms := by
    intro es ms s
    -- only errors are relabelled
    rw [parse_compact_partsToJson, ← ofEntities_eq_ok_iff]
    cases ofEntities es ms <;> simp [Except.mapError]
  refine ⟨⟨parse_compact_partsToJson es ms, hparse es ms⟩, fun s => ?_, fun document s => ?_⟩
  · exact (hparse s.entities s.metadata s).mpr ⟨rfl, rfl⟩
  · exact deserialize_eq_ok_iff

end Schema

end EntityQuery
