import EntityQuery.Proofs.WellFormed

/-!
# What tokens stand for

A token with a dot names an attribute by its entity and its column, whatever characters the column
has: names of entities are free of dots, and none of them is the qualifier of expedition metadata.
A token without a dot is resolved as if it were qualified with an entity that the policy picks among
those that have the column. So a plain column name never fails, unless no entity has the column or
the policy is strict and several have it.

Only column names without a dot can be used plainly.
-/

namespace EntityQuery

/-! ## §1 Dots -/

theorem splitQualifier?_append {qualifier column : List Char} (h : '.' ∉ qualifier) :
    splitQualifier? (qualifier ++ '.' :: column) = some (qualifier, column) := by
  induction qualifier with
  | nil => rfl
  | cons first others ih =>
    rw [List.mem_cons, not_or] at h
    rw [List.cons_append, splitQualifier?, if_neg (Ne.symm h.1), ih h.2, Option.map_some]

theorem splitQualifier?_eq_none_iff {token : List Char} :
    splitQualifier? token = none ↔ '.' ∉ token := by
  induction token with
  | nil => simp [splitQualifier?]
  | cons first others ih =>
    by_cases hdot : first = '.'
    · simp [splitQualifier?, hdot]
    · simp [splitQualifier?, hdot, ih, Ne.symm hdot]

theorem append_of_splitQualifier? {token qualifier column : List Char}
    (h : splitQualifier? token = some (qualifier, column)) :
    token = qualifier ++ '.' :: column := by
  induction token generalizing qualifier with
  | nil => exact absurd h (by simp [splitQualifier?])
  | cons first others ih =>
    unfold splitQualifier? at h
    split at h
    · rename_i hdot
      obtain ⟨rfl, rfl⟩ := Prod.mk.inj (Option.some.inj h)
      rw [hdot, List.nil_append]
    · obtain ⟨⟨rest, _⟩, hrest, heq⟩ := Option.map_eq_some_iff.mp h
      obtain ⟨rfl, rfl⟩ := Prod.mk.inj heq
      rw [ih hrest, List.cons_append]

namespace Schema

variable {s : Schema} {e : Entity}

theorem wellFormed (s : Schema) : WellFormed s.entities :=
  violation?_eq_none_iff_wellFormed.mp s.valid

theorem dot_notMem_name (he : e ∈ s.entities) : '.' ∉ e.name.toList := by
  obtain ⟨first, others, hname, hfirst, hothers⟩ := (s.wellFormed.entities e he).spelled
  -- a name has letters, digits and underscores, and the dot is none of these
  have hletter : ¬ IsLetter '.' := by unfold IsLetter; decide
  have hdigit : ¬ IsDigit '.' := by unfold IsDigit; decide
  rw [hname, List.mem_cons]
  rintro (rfl | hdot)
  · exact hfirst.elim hletter (by decide)
  · exact (hothers _ hdot).elim hletter (Or.rec hdigit (by decide))

theorem not_expedition_of_mem (he : e ∈ s.entities) :
    ¬ Text.sameIgnoringCase e.name expeditionQualifier = true := by
  intro hsame
  have hreserved : isReserved e.name = true := by
    -- ignoring the case is symmetric
    rw [Text.sameIgnoringCase_iff] at hsame
    have hsame' := Text.sameIgnoringCase_iff.mpr hsame.symm
    rw [expeditionQualifier] at hsame'
    simp [isReserved, reservedNames, hsame']
  exact (s.wellFormed.entities e he).free (isReserved_iff.mp hreserved)

end Schema

/-! ## §2 Attributes -/

namespace Entity

variable {e : Entity} {a : Attribute} {column : String}

/-- One of the attributes has the column. -/
def HasColumn (e : Entity) (column : String) : Prop :=
  ∃ a ∈ e.attributes, a.column = column

theorem isSome_attribute?_iff : (e.attribute? column).isSome = true ↔ e.HasColumn column := by
  simp [attribute?, HasColumn, List.find?_isSome]

instance : Decidable (e.HasColumn column) :=
  decidable_of_iff _ isSome_attribute?_iff

theorem Lawful.attribute?_of_mem (h : e.Lawful) (ha : a ∈ e.attributes) :
    e.attribute? a.column = some a :=
  find?_key_of_mem h.columns ha

/-- The URI of the unique key is that of the attribute whose column is the key, as URIs are
distinct. -/
theorem Lawful.keyUri?_eq_iff (h : e.Lawful) (ha : a ∈ e.attributes) :
    e.keyUri? = some a.uri ↔ a.column = e.uniqueKey := by
  obtain ⟨key, hkey, hcolumn⟩ := List.mem_map.mp h.key
  rw [keyUri?, uri?, ← hcolumn, h.attribute?_of_mem hkey, Option.map_some, Option.some_inj]
  constructor
  · -- one way because URIs are distinct, the other way because columns are
    exact fun huri => congrArg Attribute.column
      (List.inj_on_of_nodup_map h.uris ha hkey huri.symm)
  · exact fun hsame => congrArg Attribute.uri
      (List.inj_on_of_nodup_map h.columns hkey ha hsame.symm)

end Entity

/-- The column is the unique key of the entity's parent. -/
def Schema.IsParentKey (s : Schema) (e : Entity) (column : String) : Prop :=
  ∃ parent ∈ s.entities, e.parent = some parent.name ∧ column = parent.uniqueKey

theorem Schema.any_parent?_iff {s : Schema} {e : Entity} {column : String} :
    (s.parent? e).any (·.uniqueKey == column) = true ↔ s.IsParentKey e column := by
  rw [Option.any_eq_true]
  constructor
  · rintro ⟨parent, hparent, hkey⟩
    obtain ⟨name, hname, hfound⟩ := Option.bind_eq_some_iff.mp hparent
    obtain ⟨hmem, rfl⟩ := mem_entities_of_entity? hfound
    exact ⟨parent, hmem, hname, (beq_iff_eq.mp hkey).symm⟩
  · rintro ⟨parent, hmem, hname, rfl⟩
    refine ⟨parent, ?_, beq_self_eq_true _⟩
    rw [parent?, hname, Option.bind_some, entity?_of_mem hmem]

/-- The column is an attribute of an entity: it says the same about its values as the attribute and
is read from where the schema stores them. -/
structure Column.Denotes (s : Schema) (e : Entity) (a : Attribute) (c : Column) : Prop where
  source : c.source = .entity e
  property : c.property = a.uri
  dataType : c.dataType = a.dataType
  isLocal : c.isLocalIdentifier = true ↔ a.column = e.uniqueKey
  isParent : c.isParentIdentifier = true ↔ s.IsParentKey e a.column
  localAccess : a.column = e.uniqueKey →
    Sql.render c.access.tokens = e.name ++ ".local_identifier"
  parentAccess : a.column ≠ e.uniqueKey → s.IsParentKey e a.column →
    Sql.render c.access.tokens = e.name ++ ".parent_identifier"
  dataAccess : a.column ≠ e.uniqueKey → ¬ s.IsParentKey e a.column →
    Sql.render c.access.tokens = e.name ++ ".data->>" ++ Sql.quoted '\'' a.uri

theorem Access.render_property (table jsonColumn key : String) :
    Sql.render (Access.property table jsonColumn key).tokens =
      table ++ ("." ++ jsonColumn ++ "->>") ++ Sql.quoted '\'' key := by
  simp [Access.tokens, Sql.column, Sql.render, Sql.Token.text, Sql.Symbol.text, String.append_assoc]

namespace Column

variable {s : Schema} {e : Entity} {a : Attribute} {c : Column}

/-- What the parts of a column say about its access. -/
theorem denotes_of_parts (hsource : c.source = .entity e) (hproperty : c.property = a.uri)
    (htype : c.dataType = a.dataType) (hlocal : c.isLocalIdentifier = true ↔ a.column = e.uniqueKey)
    (hparent : c.isParentIdentifier = true ↔ s.IsParentKey e a.column) : Denotes s e a c where
  source := hsource
  property := hproperty
  dataType := htype
  isLocal := hlocal
  isParent := hparent
  localAccess hkey := by
    rw [access, if_pos (hlocal.mpr hkey), table, hsource]
    simp [Access.tokens, Sql.column, Sql.render, Sql.Token.text, Sql.Symbol.text]
  parentAccess hkey hparentKey := by
    rw [access, if_neg (mt hlocal.mp hkey), if_pos (hparent.mpr hparentKey), table, hsource]
    simp [Access.tokens, Sql.column, Sql.render, Sql.Token.text, Sql.Symbol.text]
  dataAccess hkey hparentKey := by
    rw [access, if_neg (mt hlocal.mp hkey), if_neg (mt hparent.mp hparentKey), table, jsonColumn,
      hsource, hproperty, Access.render_property]
    rfl

theorem exists_ofEntity? (he : e ∈ s.entities) (ha : a ∈ e.attributes) :
    ∃ c, ofEntity? s e a.column = some c ∧ c.Denotes s e a := by
  have hlawful := s.wellFormed.entities e he
  refine ⟨_, by rw [ofEntity?, hlawful.attribute?_of_mem ha, Option.map_some], ?_⟩
  apply denotes_of_parts rfl rfl rfl
  · exact beq_iff_eq.trans (hlawful.keyUri?_eq_iff ha)
  · exact Schema.any_parent?_iff

/-- A column is not an attribute of two entities, nor two attributes of one. -/
theorem Denotes.unique {e' : Entity} {a' : Attribute} (h : c.Denotes s e a)
    (h' : c.Denotes s e' a') (he : e ∈ s.entities) (ha : a ∈ e.attributes)
    (ha' : a' ∈ e'.attributes) : a = a' := by
  obtain rfl : e = e' := ColumnSource.entity.inj (h.source.symm.trans h'.source)
  -- the owners are the same, and within one entity URIs are distinct
  have huri : a.uri = a'.uri := h.property.symm.trans h'.property
  exact List.inj_on_of_nodup_map (s.wellFormed.entities e he).uris ha ha' huri

end Column

/-! ## §3 Qualified tokens -/

namespace Schema

variable {s : Schema} {e : Entity} {c : Column} {column : String}

/-- Behind a qualifier without a dot everything belongs to the column. -/
theorem resolve_eq_resolveQualified (s : Schema) (policy : ColumnPolicy) (root : String)
    {qualifier : String} (column : String) (h : '.' ∉ qualifier.toList) :
    s.resolve policy root (qualifier ++ "." ++ column) =
      s.resolveQualified (qualifier ++ "." ++ column) qualifier column := by
  have hsplit : splitQualifier? (qualifier ++ "." ++ column).toList =
      some (qualifier.toList, column.toList) := by
    simpa using splitQualifier?_append h
  rw [resolve, hsplit]
  simp only [String.ofList_toList]

theorem resolve_qualified (policy : ColumnPolicy) (root : String) (he : e ∈ s.entities)
    (hcolumn : Column.ofEntity? s e column = some c) :
    s.resolve policy root (e.name ++ "." ++ column) = .ok c := by
  rw [resolve_eq_resolveQualified s policy root column (dot_notMem_name he), resolveQualified,
    if_neg (not_expedition_of_mem he), entity?_of_mem he]
  simp only [hcolumn]

/-! ## §4 Plain tokens -/

/-- The entity is the first one that has the column. -/
def IsFirstWith (s : Schema) (column : String) (e : Entity) : Prop :=
  ∃ before after, s.entities = before ++ e :: after ∧ e.HasColumn column ∧
    ∀ other ∈ before, ¬ other.HasColumn column

/-- The entity to which a policy gives a plain column name. -/
def Picks (s : Schema) (root column : String) : ColumnPolicy → Entity → Prop
  | .declarationOrder, e => s.IsFirstWith column e
  | .preferRoot, e =>
      (e ∈ s.entities ∧ e.name = root ∧ e.HasColumn column) ∨
        ((∀ other ∈ s.entities, other.name = root → ¬ other.HasColumn column) ∧
          s.IsFirstWith column e)
  | .strict, e => e ∈ s.entities ∧ e.HasColumn column ∧
      ∀ other ∈ s.entities, other.HasColumn column → other = e

/-- Two or more entities have the column. -/
def IsAmbiguous (s : Schema) (column : String) : Prop :=
  ∃ e ∈ s.entities, ∃ other ∈ s.entities, e ≠ other ∧ e.HasColumn column ∧ other.HasColumn column

theorem mem_withColumn : e ∈ s.withColumn column ↔ e ∈ s.entities ∧ e.HasColumn column := by
  rw [withColumn, List.mem_filter, Entity.isSome_attribute?_iff]

theorem nodup_withColumn (s : Schema) (column : String) :
    ((s.withColumn column).map (·.name)).Nodup :=
  s.nodup_names.sublist (List.filter_sublist.map _)

theorem isFirstWith_iff : s.IsFirstWith column e ↔ ∃ others, s.withColumn column = e :: others := by
  simp only [withColumn, List.filter_eq_cons_iff, IsFirstWith, Entity.isSome_attribute?_iff]
  constructor
  · rintro ⟨before, after, hentities, he, hbefore⟩
    exact ⟨_, before, after, hentities, hbefore, he, rfl⟩
  · rintro ⟨others, before, after, hentities, hbefore, he, -⟩
    exact ⟨before, after, hentities, he, hbefore⟩

theorem IsFirstWith.mem (h : s.IsFirstWith column e) : e ∈ s.withColumn column := by
  obtain ⟨others, hothers⟩ := isFirstWith_iff.mp h
  exact hothers ▸ List.mem_cons_self

theorem Picks.mem {root : String} {policy : ColumnPolicy} (h : s.Picks root column policy e) :
    e ∈ s.withColumn column := by
  cases policy with
  | declarationOrder => exact IsFirstWith.mem h
  | preferRoot =>
    rcases h with ⟨he, -, hcolumn⟩ | ⟨-, hfirst⟩
    · exact mem_withColumn.mpr ⟨he, hcolumn⟩
    · exact hfirst.mem
  | strict => exact mem_withColumn.mpr ⟨h.1, h.2.1⟩

/-- Between several entities the policy decides. -/
theorem pick_cons_cons (policy : ColumnPolicy) (root : String) (first second : Entity)
    (others : List Entity) :
    pick policy root column (first :: second :: others) =
      match policy with
      | .strict => .error (.ambiguousColumn column ((first :: second :: others).map (·.name)))
      | .preferRoot => .ok (((first :: second :: others).find? (·.name == root)).getD first)
      | .declarationOrder => .ok first :=
  rfl

/-- The entity that a policy picks is the one that is meant. -/
theorem Picks.pick {root : String} {policy : ColumnPolicy} (h : s.Picks root column policy e) :
    pick policy root column (s.withColumn column) = .ok e := by
  have hmem := h.mem
  have hnodup := s.nodup_withColumn column
  match hwith : s.withColumn column with
  | [] => exact absurd hmem (by simp [hwith])
  -- a single candidate is picked without asking the policy
  | [only] =>
    rw [hwith, List.mem_singleton] at hmem
    rw [Schema.pick, hmem]
  -- between several candidates the policy decides
  | first :: second :: others =>
    rw [hwith] at hmem hnodup
    have hfirst : s.IsFirstWith column e → first = e := by
      intro hfirst
      obtain ⟨_, hothers⟩ := isFirstWith_iff.mp hfirst
      exact (List.cons.inj (hwith.symm.trans hothers)).1
    cases policy with
    | declarationOrder => rw [pick_cons_cons, hfirst h]
    | preferRoot =>
      rcases h with ⟨-, rfl, -⟩ | ⟨hroot, h⟩
      · rw [pick_cons_cons, find?_key_of_mem hnodup hmem, Option.getD_some]
      · -- the root does not have the column, so it is not among the candidates
        have hnone : (first :: second :: others).find? (·.name == root) = none := by
          rw [List.find?_eq_none]
          intro other hother hname
          rw [← hwith, mem_withColumn] at hother
          exact hroot other hother.1 (beq_iff_eq.mp hname) hother.2
        rw [pick_cons_cons, hnone, Option.getD_none, hfirst h]
    | strict =>
      -- the first two would both be the entity
      have hsame : ∀ other ∈ first :: second :: others, other = e := by
        intro other hother
        rw [← hwith, mem_withColumn] at hother
        exact h.2.2 other hother.1 hother.2
      rw [hsame first (by simp), hsame second (by simp)] at hnodup
      exact absurd hnodup (by simp)

/-- Where an entity has the column, the policy picks one, unless it is strict and several have
it. -/
theorem exists_picks (policy : ColumnPolicy) (root : String) (he : e ∈ s.entities)
    (hcolumn : e.HasColumn column) :
    (∃ picked, s.Picks root column policy picked) ∨ (policy = .strict ∧ s.IsAmbiguous column) := by
  have hmem := mem_withColumn.mpr ⟨he, hcolumn⟩
  obtain ⟨first, others, hwith⟩ := List.exists_cons_of_ne_nil (List.ne_nil_of_mem hmem)
  have hfirst : s.IsFirstWith column first := isFirstWith_iff.mpr ⟨others, hwith⟩
  obtain ⟨hfirst_mem, hfirst_column⟩ := mem_withColumn.mp hfirst.mem
  cases policy with
  | declarationOrder => exact .inl ⟨first, hfirst⟩
  | preferRoot =>
    by_cases hroot : ∃ other ∈ s.entities, other.name = root ∧ other.HasColumn column
    · obtain ⟨other, hother⟩ := hroot
      exact .inl ⟨other, .inl hother⟩
    · exact .inl ⟨first, .inr ⟨fun other hother hname hhas => hroot ⟨other, hother, hname, hhas⟩,
        hfirst⟩⟩
  | strict =>
    by_cases honly : ∀ other ∈ s.entities, other.HasColumn column → other = first
    · exact .inl ⟨first, hfirst_mem, hfirst_column, honly⟩
    · -- an entity beside the first one makes the column ambiguous
      push Not at honly
      obtain ⟨other, hother, hhas, hne⟩ := honly
      exact .inr ⟨rfl, other, hother, first, hfirst_mem, hne, hhas, hfirst_column⟩

theorem pick_eq_unknown (policy : ColumnPolicy) (root : String)
    (h : ∀ e ∈ s.entities, ¬ e.HasColumn column) :
    pick policy root column (s.withColumn column) = .error (.unknownColumn column) := by
  have hnone : s.withColumn column = [] := by
    rw [List.eq_nil_iff_forall_not_mem]
    intro e he
    rw [mem_withColumn] at he
    exact h e he.1 he.2
  rw [hnone, pick]

theorem pick_eq_ambiguous (root : String) (h : s.IsAmbiguous column) :
    pick .strict root column (s.withColumn column) =
      .error (.ambiguousColumn column ((s.withColumn column).map (·.name))) := by
  obtain ⟨e, he, other, hother, hne, hcolumn, hcolumn'⟩ := h
  have hmem := mem_withColumn.mpr ⟨he, hcolumn⟩
  have hmem' := mem_withColumn.mpr ⟨hother, hcolumn'⟩
  match hwith : s.withColumn column with
  | [] => exact absurd hmem (by simp [hwith])
  | [only] =>
    rw [hwith, List.mem_singleton] at hmem hmem'
    exact absurd (hmem.trans hmem'.symm) hne
  | first :: second :: others => rfl

/-! ## §5 Resolution -/

theorem resolve_plain (policy : ColumnPolicy) (root : String) {token : String}
    (hplain : '.' ∉ token.toList) :
    s.resolve policy root token = s.resolvePlain policy root token := by
  rw [resolve, splitQualifier?_eq_none_iff.mpr hplain]

/-- A plain token stands for what it stands for behind the name of the entity that is picked. -/
theorem Picks.resolve {root : String} {policy : ColumnPolicy} (h : s.Picks root column policy e)
    (hplain : '.' ∉ column.toList) :
    ∃ c, s.resolve policy root column = .ok c ∧
      s.resolve policy root (e.name ++ "." ++ column) = .ok c ∧
      ∃ a ∈ e.attributes, a.column = column ∧ c.Denotes s e a := by
  obtain ⟨he, a, ha, rfl⟩ := mem_withColumn.mp h.mem
  obtain ⟨c, hc, hdenotes⟩ := Column.exists_ofEntity? he ha
  refine ⟨c, ?_, resolve_qualified policy root he hc, a, ha, rfl, hdenotes⟩
  rw [resolve_plain policy root hplain, resolvePlain, h.pick]
  simp only [hc]

/-- What becomes of a plain token: no entity has the column, or the policy picks one, or it is
strict and there are several. -/
theorem resolve_plain_cases (s : Schema) (policy : ColumnPolicy) (root : String) {token : String}
    (hplain : '.' ∉ token.toList) :
    ((∀ e ∈ s.entities, ¬ e.HasColumn token) ∧
        s.resolve policy root token = .error (.unknownColumn token)) ∨
      (∃ e, s.Picks root token policy e ∧ ∃ c, s.resolve policy root token = .ok c) ∨
      (policy = .strict ∧ s.IsAmbiguous token ∧ s.resolve policy root token =
        .error (.ambiguousColumn token ((s.withColumn token).map (·.name)))) := by
  by_cases hnone : ∀ e ∈ s.entities, ¬ e.HasColumn token
  · refine .inl ⟨hnone, ?_⟩
    rw [resolve_plain policy root hplain, resolvePlain, pick_eq_unknown policy root hnone]
  · push Not at hnone
    obtain ⟨e, he, hcolumn⟩ := hnone
    rcases exists_picks policy root he hcolumn with ⟨picked, hpicked⟩ | ⟨rfl, hambiguous⟩
    · obtain ⟨c, hc, -⟩ := hpicked.resolve hplain
      exact .inr (.inl ⟨picked, hpicked, c, hc⟩)
    · refine .inr (.inr ⟨rfl, hambiguous, ?_⟩)
      rw [resolve_plain .strict root hplain, resolvePlain, pick_eq_ambiguous root hambiguous]

/-- A strict policy picks nothing where several entities have the column. -/
theorem IsAmbiguous.not_picks {root : String} (h : s.IsAmbiguous column) :
    ¬ s.Picks root column .strict e := by
  obtain ⟨first, hfirst, second, hsecond, hne, hcolumn, hcolumn'⟩ := h
  intro hpicks
  exact hne ((hpicks.2.2 first hfirst hcolumn).trans (hpicks.2.2 second hsecond hcolumn').symm)

/-- Behind the name of its entity every attribute is found, whatever characters its column has. A
token without a dot stands for what it stands for behind the name of the entity that the policy
picks. It is unknown, under each policy, exactly if no entity has the column, and the only other
error is that of the strict policy, exactly if several have it. -/
theorem resolve_complete_and_faithful (s : Schema) (policy : ColumnPolicy) (root : String) :
    (∀ e ∈ s.entities, ∀ a ∈ e.attributes, ∃ c,
        s.resolve policy root (e.name ++ "." ++ a.column) = .ok c ∧ c.Denotes s e a) ∧
      ∀ token : String, '.' ∉ token.toList →
        (∀ e, s.Picks root token policy e →
            s.resolve policy root token = s.resolve policy root (e.name ++ "." ++ token)) ∧
          ((∃ c, s.resolve policy root token = .ok c) ↔ ∃ e, s.Picks root token policy e) ∧
          (s.resolve policy root token = .error (.unknownColumn token) ↔
            ∀ e ∈ s.entities, ¬ e.HasColumn token) ∧
          (s.resolve policy root token =
              .error (.ambiguousColumn token ((s.withColumn token).map (·.name))) ↔
            policy = .strict ∧ s.IsAmbiguous token) ∧
          ∀ error, s.resolve policy root token = .error error →
            error = .unknownColumn token ∨
              error = .ambiguousColumn token ((s.withColumn token).map (·.name)) := by
  constructor
  · intro e he a ha
    obtain ⟨c, hc, hdenotes⟩ := Column.exists_ofEntity? he ha
    exact ⟨c, resolve_qualified policy root he hc, hdenotes⟩
  · intro token hplain
    refine ⟨?_, ?_⟩
    · intro e hpicks
      obtain ⟨c, hc, hc', -⟩ := hpicks.resolve hplain
      rw [hc, hc']
    · rcases s.resolve_plain_cases policy root hplain with
        ⟨hnone, hunknown⟩ | ⟨e, hpicks, c, hc⟩ | ⟨rfl, hambiguous, hseveral⟩
      · -- no entity has the column: nothing is picked, and nothing is ambiguous
        have hpicks : ¬ ∃ e, s.Picks root token policy e := fun ⟨e, he⟩ =>
          hnone e (mem_withColumn.mp he.mem).1 (mem_withColumn.mp he.mem).2
        have hsingle : ¬ s.IsAmbiguous token := fun ⟨e, he, _, _, _, hcolumn, _⟩ =>
          hnone e he hcolumn
        simpa [hunknown, hpicks, hsingle] using hnone
      · -- the policy has picked an entity, so a strict one has found no other
        obtain ⟨he, hcolumn⟩ := mem_withColumn.mp hpicks.mem
        have hsome : ¬ ∀ e ∈ s.entities, ¬ e.HasColumn token := fun hnone => hnone e he hcolumn
        have hclear : ¬ (policy = .strict ∧ s.IsAmbiguous token) := by
          rintro ⟨rfl, hambiguous⟩
          exact hambiguous.not_picks hpicks
        have hpicked : ∃ e, s.Picks root token policy e := ⟨e, hpicks⟩
        simp only [hc, hsome, hclear, hpicked]
        simp
      · -- several entities have the column, and a strict policy picks none of them
        have hpicks : ¬ ∃ e, s.Picks root token .strict e := fun ⟨_, he⟩ =>
          hambiguous.not_picks he
        have hsome : ¬ ∀ e ∈ s.entities, ¬ e.HasColumn token := fun hnone => by
          obtain ⟨e, he, _, _, _, hcolumn, _⟩ := hambiguous
          exact hnone e he hcolumn
        simp only [hseveral, hsome, hambiguous, hpicks]
        simp

/-- Events and their samples, with a year each. One column name has a dot in it. -/
def dated : Schema where
  entities :=
    [⟨"Event", none, "eventID",
      [⟨"eventID", "urn:eventID", .string⟩, ⟨"year", "urn:year", .integer⟩,
       ⟨"geo.lat", "urn:lat", .float⟩]⟩,
     ⟨"Sample", some "Event", "sampleID",
      [⟨"sampleID", "urn:sampleID", .string⟩, ⟨"eventID", "urn:eventID", .string⟩,
       ⟨"year", "urn:sampleYear", .integer⟩]⟩]
  metadata := []
  valid := by decide

/-- Behind the name of its entity the column with the dot is found, as is the key of the parent. The
year is that of the samples in a query on samples that prefers its root, and ambiguous under the
strict policy; a column that neither has is unknown. -/
theorem resolve_complete_and_faithful_dated :
    (∃ c, dated.resolve .strict "Sample" "Event.geo.lat" = .ok c ∧
        Sql.render c.access.tokens = "Event.data->>'urn:lat'") ∧
      (∃ c, dated.resolve .strict "Event" "Sample.eventID" = .ok c ∧
        Sql.render c.access.tokens = "Sample.parent_identifier") ∧
      dated.resolve .preferRoot "Sample" "year" = dated.resolve .preferRoot "Sample" "Sample.year" ∧
      dated.resolve .strict "Sample" "year" =
        .error (.ambiguousColumn "year" ["Event", "Sample"]) ∧
      dated.resolve .declarationOrder "Sample" "depth" = .error (.unknownColumn "depth") := by
  have hevent : dated.entities[0] ∈ dated.entities := by decide
  have hsample : dated.entities[1] ∈ dated.entities := by decide
  have hyear : dated.entities[0].HasColumn "year" := by decide
  have hyear' : dated.entities[1].HasColumn "year" := by decide
  refine ⟨?_, ?_, ?_, ?_, ?_⟩
  · obtain ⟨c, hc, hdenotes⟩ := (resolve_complete_and_faithful dated .strict "Sample").1 _ hevent
      ⟨"geo.lat", "urn:lat", .float⟩ (by decide)
    refine ⟨c, hc, hdenotes.dataAccess (by decide) ?_⟩
    rintro ⟨_, _, hparent, -⟩
    cases hparent
  · obtain ⟨c, hc, hdenotes⟩ := (resolve_complete_and_faithful dated .strict "Event").1 _ hsample
      ⟨"eventID", "urn:eventID", .string⟩ (by decide)
    exact ⟨c, hc, hdenotes.parentAccess (by decide) ⟨_, hevent, rfl, rfl⟩⟩
  · have hplain := (resolve_complete_and_faithful dated .preferRoot "Sample").2 "year" (by decide)
    exact hplain.1 _ (.inl ⟨hsample, rfl, hyear'⟩)
  · have hplain := (resolve_complete_and_faithful dated .strict "Sample").2 "year" (by decide)
    exact hplain.2.2.2.1.mpr ⟨rfl, _, hevent, _, hsample, by decide, hyear, hyear'⟩
  · have hplain := (resolve_complete_and_faithful dated .declarationOrder "Sample").2 "depth"
      (by decide)
    exact hplain.2.2.1.mpr (by decide)

/-! ## §6 Plain column names -/

/-- The token stands for an attribute of an entity with just that column. -/
def FindsColumn (s : Schema) (policy : ColumnPolicy) (root column : String) : Prop :=
  ∃ c, s.resolve policy root column = .ok c ∧ ∃ e ∈ s.entities, ∃ a ∈ e.attributes,
    a.column = column ∧ c.Denotes s e a

/-- A token with a dot stands for no attribute with that column. -/
theorem not_findsColumn_of_dot {policy : ColumnPolicy} {root : String}
    (hdot : '.' ∈ column.toList) : ¬ s.FindsColumn policy root column := by
  rintro ⟨c, hc, e, he, a, ha, rfl, hdenotes⟩
  -- the token is read as a qualifier and what comes behind its first dot
  obtain ⟨⟨qualifier, rest⟩, hsplit⟩ : ∃ parts, splitQualifier? a.column.toList = some parts := by
    rw [← Option.ne_none_iff_exists', ne_eq, splitQualifier?_eq_none_iff, not_not]
    exact hdot
  rw [resolve, hsplit] at hc
  simp only [resolveQualified] at hc
  split at hc
  · -- expedition metadata belongs to no entity
    split at hc
    · exact absurd hc (by simp)
    · obtain rfl := Except.ok.inj hc
      exact absurd hdenotes.source (by simp [Column.ofMetadata])
  · split at hc
    · exact absurd hc (by simp)
    · -- the qualifier is an entity, though perhaps another one
      rename_i owner howner
      split at hc
      · exact absurd hc (by simp)
      · rename_i c' hc'
        obtain rfl := Except.ok.inj hc
        have howner_mem := (mem_entities_of_entity? howner).1
        obtain ⟨b, hb, -⟩ := Option.map_eq_some_iff.mp hc'
        have hb_mem : b ∈ owner.attributes := List.mem_of_find?_eq_some hb
        have hb_column : b.column = String.ofList rest := by simpa using List.find?_some hb
        obtain ⟨c'', hc'', hdenotes'⟩ := Column.exists_ofEntity? howner_mem hb_mem
        rw [hb_column, hc', Option.some_inj] at hc''
        subst hc''
        -- the attribute behind the dot would be the one with the dot in its column
        have hsame := hdenotes.unique hdenotes' he ha hb_mem
        have hlength := congrArg List.length (append_of_splitQualifier? hsplit)
        rw [hsame, hb_column] at hlength
        simp at hlength
        omega

/-- Where the policy need not choose or can, a column name without a dot is found. -/
theorem findsColumn_of_plain {policy : ColumnPolicy} (root : String) {a : Attribute}
    (he : e ∈ s.entities) (ha : a ∈ e.attributes)
    (hclear : ¬ (policy = .strict ∧ s.IsAmbiguous a.column)) (hplain : '.' ∉ a.column.toList) :
    s.FindsColumn policy root a.column := by
  obtain ⟨picked, hpicks⟩ := (exists_picks policy root he ⟨a, ha, rfl⟩).resolve_right hclear
  obtain ⟨c, hc, -, hfound⟩ := hpicks.resolve hplain
  exact ⟨c, hc, picked, (mem_withColumn.mp hpicks.mem).1, hfound⟩

/-- Unless the policy is strict, a column name of any entity can be used without a qualifier if and
only if there is no dot in it. In a schema of one entity this holds under each policy, and what is
found is the attribute itself. -/
theorem findsColumn_iff_plain (s : Schema) (root : String) :
    (∀ policy, policy ≠ .strict → ∀ e ∈ s.entities, ∀ a ∈ e.attributes,
        (s.FindsColumn policy root a.column ↔ '.' ∉ a.column.toList)) ∧
      ∀ e, s.entities = [e] → ∀ policy, ∀ a ∈ e.attributes,
        ((∃ c, s.resolve policy root a.column = .ok c ∧ c.Denotes s e a) ↔
          '.' ∉ a.column.toList) := by
  constructor
  · intro policy hpolicy e he a ha
    refine ⟨fun hfinds hdot => not_findsColumn_of_dot hdot hfinds, ?_⟩
    exact findsColumn_of_plain root he ha fun hstrict => hpolicy hstrict.1
  · intro e hentities policy a ha
    have honly : ∀ other, other ∈ s.entities ↔ other = e := by simp [hentities]
    have he : e ∈ s.entities := (honly e).mpr rfl
    constructor
    · rintro ⟨c, hc, hdenotes⟩ hdot
      exact not_findsColumn_of_dot hdot ⟨c, hc, e, he, a, ha, rfl, hdenotes⟩
    · intro hplain
      -- a single entity cannot be ambiguous
      have hclear : ¬ s.IsAmbiguous a.column := by
        rintro ⟨first, hfirst, second, hsecond, hne, -⟩
        exact hne (((honly first).mp hfirst).trans ((honly second).mp hsecond).symm)
      obtain ⟨c, hc, other, hother, b, hb, hcolumn, hdenotes⟩ :=
        findsColumn_of_plain root he ha (fun hstrict => hclear hstrict.2) hplain
      obtain rfl := (honly other).mp hother
      -- what was found has the same column, and columns are distinct within the entity
      obtain rfl : b = a :=
        List.inj_on_of_nodup_map (s.wellFormed.entities other he).columns hb ha hcolumn
      exact ⟨c, hc, hdenotes⟩

/-- Stations, and nothing else, with a column whose name has a dot in it. -/
def stations : Schema where
  entities :=
    [⟨"Station", none, "stationID",
      [⟨"stationID", "urn:stationID", .string⟩, ⟨"geo.lat", "urn:lat", .float⟩]⟩]
  metadata := []
  valid := by decide

/-- The key is found under each policy, and the column with the dot under none. -/
theorem findsColumn_iff_plain_stations :
    stations.FindsColumn .declarationOrder "Station" "stationID" ∧
      (∃ c, stations.resolve .strict "Station" "stationID" = .ok c ∧ c.property = "urn:stationID") ∧
      ¬ stations.FindsColumn .preferRoot "Station" "geo.lat" := by
  have hstation : stations.entities[0] ∈ stations.entities := by decide
  obtain ⟨hlenient, hsingle⟩ := findsColumn_iff_plain stations "Station"
  refine ⟨?_, ?_, ?_⟩
  · exact (hlenient .declarationOrder (by decide) _ hstation
      ⟨"stationID", "urn:stationID", .string⟩ (by decide)).mpr (by decide)
  · obtain ⟨c, hc, hdenotes⟩ := (hsingle _ rfl .strict
      ⟨"stationID", "urn:stationID", .string⟩ (by decide)).mpr (by decide)
    exact ⟨c, hc, hdenotes.property⟩
  · exact mt (hlenient .preferRoot (by decide) _ hstation
      ⟨"geo.lat", "urn:lat", .float⟩ (by decide)).mp (by decide)

/-- A column with a dot in its name cannot be used by itself, even if it belongs to the only
entity: what stands before the dot is read as the name of an entity. -/
theorem stations_dotted_column_fails :
    (∃ e ∈ stations.entities, stations.entities = [e] ∧ e.HasColumn "geo.lat") ∧
      stations.resolve .declarationOrder "Station" "geo.lat" = .error (.unknownEntity "geo.lat") ∧
      stations.resolve .preferRoot "Station" "geo.lat" = .error (.unknownEntity "geo.lat") ∧
      stations.resolve .strict "Station" "geo.lat" = .error (.unknownEntity "geo.lat") := by
  exact ⟨⟨_, List.mem_cons_self, rfl, by decide⟩, rfl, rfl, rfl⟩

end Schema

end EntityQuery
