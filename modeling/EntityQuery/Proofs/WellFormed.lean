import EntityQuery.Proofs.Hierarchy.Cycles

/-!
# Well-formed lists of entities

A list of entities becomes a schema if and only if it is well formed. Well-formedness is said here
without the checks: by the characters of names, by distinct and declared names, and by parents that
come to an end. Each check is shown to find nothing exactly if its rule holds; the sweeps answer
for the hierarchy.
-/

namespace EntityQuery

/-! ## §1 The rules -/

/-- A letter of ASCII. -/
def IsLetter (c : Char) : Prop :=
  ('A' ≤ c ∧ c ≤ 'Z') ∨ ('a' ≤ c ∧ c ≤ 'z')

/-- A digit of ASCII. -/
def IsDigit (c : Char) : Prop :=
  '0' ≤ c ∧ c ≤ '9'

/-- The text matches `[A-Za-z_][A-Za-z0-9_]*` from its start to its end. -/
def IsName (text : String) : Prop :=
  ∃ first others, text.toList = first :: others ∧ (IsLetter first ∨ first = '_') ∧
    ∀ c ∈ others, IsLetter c ∨ IsDigit c ∨ c = '_'

/-- The rules for a single entity. -/
structure Entity.Lawful (e : Entity) : Prop where
  spelled : IsName e.name
  free : e.name.toLower ∉ ["expeditions", "entity_identifiers", "expedition"]
  columns : (e.attributes.map (·.column)).Nodup
  uris : (e.attributes.map (·.uri)).Nodup
  key : e.uniqueKey ∈ e.attributes.map (·.column)

/-- The rules for several entities, but for the one that parents come to an end. -/
structure Lawful (es : List Entity) : Prop where
  entities : ∀ e ∈ es, e.Lawful
  names : (es.map (·.name)).Nodup
  parents : ∀ e ∈ es, ∀ parent ∈ e.parent, parent ∈ es.map (·.name)

/-- All rules for a list of entities. -/
structure WellFormed (es : List Entity) : Prop extends Lawful es where
  acyclic : Acyclic es

/-! ## §2 Names -/

theorem isAlpha_iff {c : Char} : c.isAlpha = true ↔ IsLetter c := by
  show (decide (c.val ≥ 'A'.val ∧ c.val ≤ 'Z'.val) ||
    (decide (c.val ≥ 'a'.val) && decide (c.val ≤ 'z'.val))) = true ↔ IsLetter c
  simp [IsLetter, Char.le_def]

theorem isDigit_iff {c : Char} : c.isDigit = true ↔ IsDigit c := by
  simp [Char.isDigit, IsDigit, Char.le_def]

theorem isIdentifier_iff {text : String} : isIdentifier text = true ↔ IsName text := by
  unfold isIdentifier IsName
  cases text.toList with
  | nil => simp
  | cons first others =>
    simp [isIdentifierStart, isIdentifierPart, Char.isAlphanum, isAlpha_iff, isDigit_iff, or_assoc]

theorem isReserved_iff {name : String} :
    isReserved name = true ↔
      name.toLower ∈ ["expeditions", "entity_identifiers", "expedition"] := by
  -- the reserved names are written with small letters
  have hfold : ∀ reserved : String, Text.foldCase reserved = reserved.toList →
      (Text.sameIgnoringCase reserved name = true ↔ name.toLower = reserved) := by
    intro reserved hsmall
    have hlower : name.toLower = name.map Char.toLower := rfl
    rw [Text.sameIgnoringCase_iff, hsmall, Text.foldCase, ← String.toList_map,
      String.toList_inj, eq_comm, hlower]
  simp only [isReserved, reservedNames, List.any_cons, List.any_nil, Bool.or_false,
    Bool.or_eq_true, List.mem_cons, List.not_mem_nil, or_false]
  rw [hfold "expeditions" (by decide), hfold "entity_identifiers" (by decide),
    hfold "expedition" (by decide)]

/-! ## §3 One entity -/

/-- No column and no URI comes twice, nor again after those that came before. -/
theorem attributeViolation?_eq_none_iff {entity : String} {columns uris : List String}
    {attributes : List Attribute} :
    attributeViolation? entity columns uris attributes = none ↔
      ((attributes.map (·.column)).Nodup ∧ ∀ a ∈ attributes, a.column ∉ columns) ∧
        (attributes.map (·.uri)).Nodup ∧ ∀ a ∈ attributes, a.uri ∉ uris := by
  -- on the attributes, of which each is checked with the columns and URIs of those before it
  induction attributes generalizing columns uris with
  | nil => simp [attributeViolation?]
  | cons first others ih =>
    unfold attributeViolation?
    split
    · simp_all
    · split
      · simp_all
      · rw [ih]
        simp only [List.map_cons, List.nodup_cons, List.mem_map, List.mem_cons, not_or,
          forall_eq_or_imp, forall_and, not_exists, not_and]
        grind

/-- The checks of a single entity, as one conjunction. -/
theorem entityViolation?_eq_none_iff_checks {e : Entity} :
    entityViolation? e = none ↔ isIdentifier e.name = true ∧ ¬ isReserved e.name = true ∧
      e.parent ≠ some e.name ∧ attributeViolation? e.name [] [] e.attributes = none ∧
      (e.attribute? e.uniqueKey).isSome = true := by
  unfold entityViolation?
  -- the checks are made in this order, and the first that fails is the answer
  cases isIdentifier e.name <;> cases isReserved e.name <;>
    by_cases hparent : e.parent = some e.name <;>
    cases attributeViolation? e.name [] [] e.attributes <;>
    simp [hparent, Option.isSome_iff_ne_none]

/-- An entity is right by itself if it obeys its rules and is not its own parent. -/
theorem entityViolation?_eq_none_iff {e : Entity} :
    entityViolation? e = none ↔ e.Lawful ∧ e.parent ≠ some e.name := by
  have hkey : (e.attribute? e.uniqueKey).isSome = true ↔
      e.uniqueKey ∈ e.attributes.map (·.column) := by
    simp [Entity.attribute?, List.find?_isSome]
  rw [entityViolation?_eq_none_iff_checks, isIdentifier_iff, isReserved_iff, hkey,
    attributeViolation?_eq_none_iff]
  constructor
  · rintro ⟨hspelled, hfree, hparent, ⟨⟨hcolumns, -⟩, huris, -⟩, hmem⟩
    exact ⟨⟨hspelled, hfree, hcolumns, huris, hmem⟩, hparent⟩
  · rintro ⟨h, hparent⟩
    exact ⟨h.spelled, h.free, hparent, ⟨⟨h.columns, by simp⟩, h.uris, by simp⟩, h.key⟩

/-! ## §4 Several entities -/

theorem firstEntityViolation?_eq_none {earlier : List String} {es : List Entity}
    (hentities : ∀ e ∈ es, entityViolation? e = none) (hearlier : ∀ e ∈ es, e.name ∉ earlier)
    (hnames : (es.map (·.name)).Nodup) : firstEntityViolation? earlier es = none := by
  -- the earlier names grow by one with each entity, and names are distinct
  induction es generalizing earlier with
  | nil => rfl
  | cons first others ih =>
    obtain ⟨hfirst, hothers⟩ := List.nodup_cons.mp hnames
    have hrest : firstEntityViolation? (first.name :: earlier) others = none := by
      apply ih _ _ hothers
      · exact fun e he => hentities e (List.mem_cons_of_mem _ he)
      · intro e he
        rw [List.mem_cons, not_or]
        exact ⟨fun heq => hfirst (List.mem_map.mpr ⟨e, he, heq⟩),
          hearlier e (List.mem_cons_of_mem _ he)⟩
    rw [firstEntityViolation?, hentities first List.mem_cons_self]
    exact (if_neg (hearlier first List.mem_cons_self)).trans hrest

theorem parentViolation?_eq_none {declared : List String} {es : List Entity}
    (h : ∀ e ∈ es, ∀ parent ∈ e.parent, parent ∈ declared) :
    parentViolation? declared es = none := by
  induction es with
  | nil => rfl
  | cons first others ih =>
    have hothers := ih fun e he => h e (List.mem_cons_of_mem _ he)
    unfold parentViolation?
    split
    · rename_i parent hparent
      rw [if_pos (h first List.mem_cons_self parent hparent), hothers]
    · exact hothers

theorem Acyclic.parent_ne {es : List Entity} (h : Acyclic es) {e : Entity} (he : e ∈ es) :
    e.parent ≠ some e.name :=
  fun hparent => h e.name (.single ⟨e, he, rfl, hparent⟩)

/-- In a schema nothing is its own ancestor, as ranks rise from parent to child. -/
theorem Schema.acyclic_entities (s : Schema) : Acyclic s.entities := by
  intro name hcycle
  -- ranks rise along every chain of links, and so around the cycle as well
  have hrank : ∀ {a b : String}, Relation.TransGen (ParentLink s.entities) a b →
      s.rank a < s.rank b := by
    intro a b h
    induction h with
    | single hlink => exact IsParent.rank_lt hlink
    | tail _ hlink ih => exact Nat.lt_trans ih (IsParent.rank_lt hlink)
  exact Nat.lt_irrefl _ (hrank hcycle)

/-- The checks find nothing if and only if all rules are obeyed. -/
theorem violation?_eq_none_iff_wellFormed {es : List Entity} :
    violation? es = none ↔ WellFormed es := by
  constructor
  · -- the cycle check has passed, so the list is that of a schema
    intro h
    obtain ⟨hfirst, hparents, -⟩ := violation?_eq_none_iff.mp h
    refine ⟨⟨?_, (names_of_firstEntityViolation? hfirst).2,
      parent_mem_of_parentViolation? hparents⟩, (Schema.mk es [] h).acyclic_entities⟩
    exact fun e he => (entityViolation?_eq_none_iff.mp (entityViolation?_of_mem hfirst e he)).1
  · rintro ⟨⟨hentities, hnames, hparents⟩, hacyclic⟩
    rw [violation?_eq_none_iff]
    refine ⟨firstEntityViolation?_eq_none ?_ (fun _ _ => List.not_mem_nil) hnames,
      parentViolation?_eq_none hparents, cycle?_eq_none_of_acyclic hnames hparents hacyclic⟩
    exact fun e he => entityViolation?_eq_none_iff.mpr ⟨hentities e he, hacyclic.parent_ne he⟩

/-! ## §5 Making a schema -/

/-- In a schema, following parents from any entity comes to an end. -/
theorem Schema.exists_nthParent?_eq_none (s : Schema) :
    ∀ e ∈ s.entities, ∃ n, nthParent? s.entities n e.name = none := by
  -- an entity has one step more to the top than its parent
  apply parent_induction
  intro e he ih
  cases hparent : s.parent? e with
  | none =>
    refine ⟨1, ?_⟩
    have hnone : parentName? s.entities e.name = none := by
      rw [Option.eq_none_iff_forall_ne_some]
      intro parent hname
      exact not_isParent_of_parent? he hparent parent (parentLink_of_parentName? hname)
    rw [nthParent?, hnone, Option.bind_none]
  | some parent =>
    obtain ⟨n, hn⟩ := ih parent hparent
    refine ⟨n + 1, ?_⟩
    have hlink : ParentLink s.entities parent.name e.name := isParent_of_parent? he hparent
    rw [nthParent?, (parentName?_eq_some_iff s.nodup_names).mpr hlink, Option.bind_some, hn]

/-- Where the other rules are obeyed, there is no cycle of parents if and only if following parents
from any entity comes to an end. -/
theorem Lawful.acyclic_iff_ends {es : List Entity} (h : Lawful es) :
    Acyclic es ↔ ∀ e ∈ es, ∃ n, nthParent? es n e.name = none := by
  constructor
  · -- the rules together make a schema, in which parents come to an end
    intro hacyclic
    have hvalid := violation?_eq_none_iff_wellFormed.mpr ⟨h, hacyclic⟩
    exact (Schema.mk es [] hvalid).exists_nthParent?_eq_none
  · intro hends name hcycle
    obtain ⟨_, _, hlink⟩ := Relation.TransGen.tail'_iff.mp hcycle
    obtain ⟨e, he, rfl, -⟩ := hlink
    obtain ⟨n, hn⟩ := hends e he
    exact not_transGen_of_nthParent? h.names hn hcycle

theorem Schema.ofEntities_of_violation?_eq_none {es : List Entity}
    {metadata : List MetadataProperty} (h : violation? es = none) :
    ofEntities es metadata = .ok ⟨es, metadata, h⟩ := by
  unfold ofEntities
  split
  · rfl
  · rename_i hsome
    exact absurd (h.symm.trans hsome) (by simp)

theorem Schema.violation?_of_ofEntities {es : List Entity} {metadata : List MetadataProperty}
    {s : Schema} (h : ofEntities es metadata = .ok s) : violation? es = none := by
  unfold ofEntities at h
  split at h
  · assumption
  · exact absurd h (by simp)

/-- A list of entities, with whatever metadata, becomes a schema if and only if it is well formed;
for the hierarchy this says that following parents from any entity comes to an end. -/
theorem Schema.exists_ofEntities_iff_wellFormed (es : List Entity)
    (metadata : List MetadataProperty) :
    ((∃ s, ofEntities es metadata = .ok s ∧ s.entities = es ∧ s.metadata = metadata) ↔
        WellFormed es) ∧
      (WellFormed es ↔ Lawful es ∧ ∀ e ∈ es, ∃ n, nthParent? es n e.name = none) := by
  constructor
  · rw [← violation?_eq_none_iff_wellFormed]
    constructor
    · rintro ⟨s, hs, -⟩
      exact violation?_of_ofEntities hs
    · intro hvalid
      exact ⟨_, ofEntities_of_violation?_eq_none hvalid, rfl, rfl⟩
  · constructor
    · exact fun h => ⟨h.toLawful, h.toLawful.acyclic_iff_ends.mp h.acyclic⟩
    · exact fun ⟨hlawful, hends⟩ => ⟨hlawful, hlawful.acyclic_iff_ends.mpr hends⟩

end EntityQuery
