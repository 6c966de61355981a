import Mathlib.Logic.Function.Iterate
import EntityQuery.Compile
import EntityQuery.Proofs.Json.Nesting

/-!
# Expressions as documents

Every expression can be written as a document, but only a document that nests at most 127 arrays and
objects is read. Up to that the expression that is read is the one that was written
(`Expression.parse?_serialize`); and whether it can be read or not, a document is written for one
expression only.
-/

namespace EntityQuery.Expression

/-! ## §1 The tree that is written -/

theorem exact_tagged {kind : ExpressionKind} {fields : List (String × Json)}
    (h : ∀ field ∈ fields, field.2.Exact) : (tagged kind fields).Exact := by
  apply Json.Exact.object
  intro field hfield
  rcases List.mem_cons.mp hfield with rfl | hfield
  · exact .text _
  · exact h field hfield

theorem exact_textsToJson (texts : List String) : (textsToJson texts).Exact := by
  apply Json.Exact.array
  intro item hitem
  obtain ⟨text, -, rfl⟩ := List.mem_map.mp hitem
  exact .text text

/-- A project identifier fits the 64 bits that a number may have. -/
theorem fitsSigned_toInt (id : Int64) : fitsSigned 64 id.toInt = true := by
  rw [fitsSigned_iff]
  exact ⟨id.le_toInt, id.toInt_lt⟩

theorem exact_projectIds (ids : List Int64) :
    (Json.array (ids.map fun id => .int id.toInt)).Exact := by
  apply Json.Exact.array
  intro item hitem
  obtain ⟨id, -, rfl⟩ := List.mem_map.mp hitem
  exact .int (.inl (fitsSigned_toInt id))

theorem exact_toJson (e : Expression) : e.toJson.Exact := by
  -- every field of a node is a text, a list of texts or numbers, or a smaller node
  induction e with
  | comparison | range | like | all | empty => exact exact_tagged (by simp [Json.Exact.text])
  | search column term =>
    cases column <;> exact exact_tagged (by simp [Json.Exact.text, Json.Exact.null])
  | present columns => exact exact_tagged (by simp [exact_textsToJson])
  | not inner ih => exact exact_tagged (by simp [ih])
  | logical connective left right ihl ihr =>
    exact exact_tagged (by simp [Json.Exact.text, ihl, ihr])
  | group inner ih => exact exact_tagged (by simp [ih])
  | expedition codes => exact exact_tagged (by simp [exact_textsToJson])
  | project ids => exact exact_tagged (by simp [exact_projectIds])
  | select entities => exact exact_tagged (by simp [exact_textsToJson, Json.Exact.null])
  | selectWith entities inner ih => exact exact_tagged (by simp [exact_textsToJson, ih])

/-! ## §2 Reading nodes -/

theorem splitKind?_tagged (isRoot : Bool) (kind : ExpressionKind)
    {fields : List (String × Json)} (h : ∀ field ∈ fields, field.1 ≠ "type") :
    splitKind? isRoot (tagged kind fields) = some (kind, .object fields) := by
  -- the kind is found in the only field of its name, and the others are left
  have htype : fields.filter (·.1 == "type") = [] := by
    rw [List.filter_eq_nil_iff]
    exact fun field hfield => by simp [h field hfield]
  have hothers : fields.filter (·.1 != "type") = fields := by
    rw [List.filter_eq_self]
    exact fun field hfield => by simp [h field hfield]
  simp [splitKind?, tagged, htype, hothers, kindOfJson?, ExpressionKind.ofName?_name]

theorem nodeOfJson?_tagged (fuel : Nat) (isRoot : Bool) (kind : ExpressionKind)
    {fields : List (String × Json)} (h : ∀ field ∈ fields, field.1 ≠ "type") :
    nodeOfJson? (fuel + 1) isRoot (tagged kind fields) =
      fieldsOfJson? (nodeOfJson? fuel false) kind (.object fields) := by
  rw [nodeOfJson?, splitKind?_tagged isRoot kind h, Option.bind_some]

theorem mapM_projectIdOfJson? (ids : List Int64) :
    (ids.map fun id => Json.int id.toInt).mapM projectIdOfJson? = some ids := by
  apply Json.mapM_map_eq_some
  intro id _
  rw [projectIdOfJson?, if_pos (fitsSigned_toInt id), Int64.ofInt_toInt]

/-- No expression is written as `null`. -/
theorem optional_toJson {α : Type} (read : Json → Option α) (e : Expression) :
    -- every node is an object
    Json.optional read e.toJson = (read e.toJson).map some := by
  cases e <;> rfl

theorem depth_lt_tagged {kind : ExpressionKind} {fields : List (String × Json)} {json : Json}
    (h : json ∈ fields.map Prod.snd) : json.depth < (tagged kind fields).depth := by
  have hle : json.depth ≤ Json.depthOfFields fields := by
    induction fields with
    | nil => exact absurd h List.not_mem_nil
    | cons field fields ih =>
      rw [Json.depthOfFields]
      rcases List.mem_cons.mp h with rfl | h
      · exact Nat.le_max_left _ _
      · exact Nat.le_trans (ih h) (Nat.le_max_right _ _)
  simp only [tagged, Json.depth, Json.depthOfFields]
  omega

/-- With fuel for its depth, the tree that an expression is written as is read as that expression,
be it at the root or below. -/
def IsReadBack (e : Expression) : Prop :=
  ∀ fuel isRoot, e.toJson.depth ≤ fuel → nodeOfJson? (fuel + 1) isRoot e.toJson = some e

namespace IsReadBack

variable {e : Expression} {kind : ExpressionKind} {fields : List (String × Json)}

/-- A node is read back if its fields are. -/
theorem of_fields (hjson : e.toJson = tagged kind fields)
    (hnames : ∀ field ∈ fields, field.1 ≠ "type")
    (h : ∀ fuel, (tagged kind fields).depth ≤ fuel →
      fieldsOfJson? (nodeOfJson? fuel false) kind (.object fields) = some e) : e.IsReadBack := by
  intro fuel isRoot hdepth
  rw [hjson] at hdepth ⊢
  rw [nodeOfJson?_tagged fuel isRoot kind hnames]
  exact h fuel hdepth

/-- In the fields of a node there is fuel for the nodes below it. -/
theorem below (he : e.IsReadBack) {fuel : Nat} (h : (tagged kind fields).depth ≤ fuel)
    (hmem : e.toJson ∈ fields.map Prod.snd) : nodeOfJson? fuel false e.toJson = some e := by
  have hdepth : e.toJson.depth < fuel := Nat.lt_of_lt_of_le (depth_lt_tagged hmem) h
  obtain ⟨fuel, rfl⟩ := Nat.exists_eq_succ_of_ne_zero (Nat.ne_zero_of_lt hdepth)
  exact he fuel false (Nat.le_of_lt_succ hdepth)

end IsReadBack

theorem isReadBack (e : Expression) : e.IsReadBack := by
  -- on the expression; the nodes below one are less deep and so have fuel enough
  induction e with
  | comparison column operator term =>
    apply IsReadBack.of_fields rfl (by simp)
    intro fuel _
    simp [fieldsOfJson?, Json.record?, Json.hasDistinct, List.lookup_cons, Json.asText?,
      operatorOfJson?, Json.choice?, ComparisonOperator.ofSymbol?_symbol]
  | range column spec | like column term =>
    apply IsReadBack.of_fields rfl (by simp)
    intro fuel _
    simp [fieldsOfJson?, Json.record?, Json.hasDistinct, List.lookup_cons, Json.asText?]
  | search column term =>
    apply IsReadBack.of_fields rfl (by simp)
    intro fuel _
    cases column <;> simp [fieldsOfJson?, Json.record?, Json.hasDistinct, List.lookup_cons,
      Json.withDefault, Json.optional, Json.asText?]
  | present columns =>
    apply IsReadBack.of_fields rfl (by simp)
    intro fuel _
    simp [fieldsOfJson?, Json.record?, Json.hasDistinct, List.lookup_cons, textsToJson,
      Json.asTexts?_texts]
  | not inner ih | group inner ih =>
    apply IsReadBack.of_fields rfl (by simp)
    intro fuel h
    have hinner := ih.below h (by simp)
    simp [fieldsOfJson?, Json.record?, Json.hasDistinct, List.lookup_cons, hinner]
  | logical connective left right ihl ihr =>
    apply IsReadBack.of_fields rfl (by simp)
    intro fuel h
    have hleft := ihl.below h (by simp)
    have hright := ihr.below h (by simp)
    simp [fieldsOfJson?, Json.record?, Json.hasDistinct, List.lookup_cons, connectiveOfJson?,
      Json.choice?, Connective.ofSymbol?_symbol, hleft, hright]
  | expedition codes =>
    apply IsReadBack.of_fields rfl (by simp)
    intro fuel _
    simp [fieldsOfJson?, Json.record?, Json.hasDistinct, List.lookup_cons, textsToJson,
      Json.asTexts?_texts]
  | project ids =>
    apply IsReadBack.of_fields rfl (by simp)
    intro fuel _
    have hids := mapM_projectIdOfJson? ids
    simp [fieldsOfJson?, Json.record?, Json.hasDistinct, List.lookup_cons, Json.asArray?, hids,
      -List.mapM_map]
  | select entities =>
    apply IsReadBack.of_fields rfl (by simp)
    intro fuel _
    simp [fieldsOfJson?, Json.record?, Json.hasDistinct, List.lookup_cons, textsToJson,
      Json.asTexts?_texts, Json.withDefault, Json.optional]
  | selectWith entities inner ih =>
    apply IsReadBack.of_fields rfl (by simp)
    intro fuel h
    have hinner := ih.below h (by simp)
    simp [fieldsOfJson?, Json.record?, Json.hasDistinct, List.lookup_cons, textsToJson,
      Json.asTexts?_texts, Json.withDefault, optional_toJson, hinner]
  | all | empty => exact IsReadBack.of_fields rfl (by simp) fun _ _ => rfl

/-! ## §3 Documents -/

theorem ofJson?_toJson (e : Expression) :
    ofJson? e.toJson = if e.toJson.depth ≤ maxNesting then some e else none := by
  rw [ofJson?, e.exact_toJson.isSolid, Bool.true_and]
  by_cases h : e.toJson.depth ≤ maxNesting
  · rw [if_pos h, if_pos (decide_eq_true h)]
    exact e.isReadBack _ true (Nat.le_refl _)
  · rw [if_neg h, if_neg (by simpa using h)]

theorem parse?_serialize (e : Expression) :
    parse? e.serialize = if Json.nesting e.serialize ≤ 127 then some e else none := by
  rw [parse?, serialize, e.exact_toJson.parse_compact, Option.bind_some, ofJson?_toJson,
    e.exact_toJson.nesting_compact]
  rfl

/-- Both cases occur: below fewer than 127 negations an expression can be read, below more it
cannot. -/
theorem parse?_serialize_iterate_not (n : Nat) :
    parse? (Expression.not^[n] .all).serialize =
      if n < 127 then some (Expression.not^[n] .all) else none := by
  have hdepth : (Expression.not^[n] .all).toJson.depth = n + 1 := by
    induction n with
    | zero => rfl
    | succ n ih =>
      rw [Function.iterate_succ_apply', toJson]
      simp [tagged, Json.depth, Json.depthOfFields, ih]
  rw [parse?_serialize, serialize, (exact_toJson _).nesting_compact, hdepth]
  rfl

/-- Different expressions are written differently, be they too deep to be read or not. -/
theorem serialize_injective {e e' : Expression} (h : e.serialize = e'.serialize) : e = e' := by
  have hparse := e'.exact_toJson.parse_compact
  rw [← serialize, ← h, serialize, e.exact_toJson.parse_compact, Option.some.injEq] at hparse
  -- the document has one tree, which can be read with fuel enough
  have hread := e.isReadBack e.toJson.depth true (Nat.le_refl _)
  rw [hparse, e'.isReadBack _ true (Nat.le_refl _)] at hread
  exact (Option.some.inj hread).symm

/-- An expression document that nests at most 127 arrays and objects compiles as the expression it
was written for; one that nests more is an invalid expression document, whatever the expression. No
document is written for two expressions. -/
theorem documents_round_trip (schema root : String) (o : CompileOptions) (e : Expression) :
    parse? e.serialize = (if Json.nesting e.serialize ≤ 127 then some e else none) ∧
    compileDocuments schema root e.serialize o =
      (match Schema.parse schema with
      | .error error => .error (.schema error)
      | .ok s =>
        if Json.nesting e.serialize ≤ 127 then (s.compile root e o).mapError .query
        else .error .expression) ∧
    ∀ e' : Expression, e'.serialize = e.serialize ↔ e' = e := by
  refine ⟨e.parse?_serialize, ?_, fun e' => ⟨serialize_injective, congrArg serialize⟩⟩
  unfold compileDocuments
  rw [e.parse?_serialize]
  cases Schema.parse schema with
  | error error => rfl
  | ok s => split_ifs <;> rfl

end EntityQuery.Expression
