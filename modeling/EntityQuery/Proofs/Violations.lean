import EntityQuery.Proofs.WellFormed
import EntityQuery.Proofs.Hierarchy.Search

/-!
# Violations are there

A list of entities that is refused breaks the rule that is reported, and at the place that is
reported. What it means that a rule is broken is said without the checks: names, columns and URIs
are counted, spelling is compared with the characters allowed, and a cycle is a chain of parents
that comes back to where it started.

Which entity of a cycle is named is part of the meaning, too: an entity that is its own parent is
named itself, and otherwise the search with an explicit stack decides.
-/

namespace EntityQuery

/-! ## §1 What violations say -/

/-- A list of entities breaks the rule. -/
def Violation.Holds (es : List Entity) : Violation → Prop
  | .duplicateEntity name => 2 ≤ (es.map (·.name)).count name
  | .invalidName name => (∃ e ∈ es, e.name = name) ∧ ¬ IsName name
  | .reservedName name => (∃ e ∈ es, e.name = name) ∧
      name.toLower ∈ ["expeditions", "entity_identifiers", "expedition"]
  | .unknownParent entity parent =>
      (∃ e ∈ es, e.name = entity ∧ e.parent = some parent) ∧ ∀ e ∈ es, e.name ≠ parent
  | .cyclicHierarchy name => OnCycle es name ∧
      ((∃ e ∈ es, e.name = name ∧ e.parent = some name) ∨
        ((∀ e ∈ es, e.parent ≠ some e.name) ∧ (∃ n, nthParent? es (n + 1) name = some name) ∧
          Search.Reports es name))
  | .duplicateColumn entity column =>
      ∃ e ∈ es, e.name = entity ∧ 2 ≤ (e.attributes.map (·.column)).count column
  | .duplicateUri entity uri =>
      ∃ e ∈ es, e.name = entity ∧ 2 ≤ (e.attributes.map (·.uri)).count uri
  | .unknownUniqueKey entity uniqueKey => ∃ e ∈ es, e.name = entity ∧ e.uniqueKey = uniqueKey ∧
      ∀ a ∈ e.attributes, a.column ≠ uniqueKey

/-! ## §2 The checks -/

section Checks

variable {es : List Entity} {violation : Violation}

/-- A text that came before and comes again is counted twice. -/
theorem two_le_count_append_cons {text : String} {earlier later : List String}
    (h : text ∈ earlier) : 2 ≤ (earlier ++ text :: later).count text := by
  have hearlier : 0 < earlier.count text := List.count_pos_iff.mpr h
  rw [List.count_append, List.count_cons_self]
  omega

theorem count_cons_append (text other : String) (earlier later : List String) :
    ((other :: earlier) ++ later).count text = (earlier ++ other :: later).count text :=
  (List.perm_middle.symm.count_eq text)

/-- The column or URI that is found comes twice among the earlier ones and those of the
attributes. -/
theorem count_of_attributeViolation? {entity : String} {columns uris : List String}
    {attributes : List Attribute}
    (h : attributeViolation? entity columns uris attributes = some violation) :
    (∃ column, violation = .duplicateColumn entity column ∧
        2 ≤ (columns ++ attributes.map (·.column)).count column) ∨
      ∃ uri, violation = .duplicateUri entity uri ∧
        2 ≤ (uris ++ attributes.map (·.uri)).count uri := by
  -- on the attributes; those that were checked move over to the earlier ones
  induction attributes generalizing columns uris with
  | nil => exact absurd h (by simp [attributeViolation?])
  | cons first others ih =>
    unfold attributeViolation? at h
    split at h
    · rename_i hcolumn
      exact .inl ⟨first.column, (Option.some.inj h).symm, two_le_count_append_cons hcolumn⟩
    · split at h
      · rename_i huri
        exact .inr ⟨first.uri, (Option.some.inj h).symm, two_le_count_append_cons huri⟩
      · -- the count does not depend on which side of the border an attribute stands
        simpa only [count_cons_append, List.map_cons] using ih h

theorem holds_of_entityViolation? {e : Entity} (he : e ∈ es)
    (h : entityViolation? e = some violation) : violation.Holds es := by
  unfold entityViolation? at h
  split at h
  · -- the spelling of the name
    rename_i hspelled
    obtain rfl := Option.some.inj h
    rw [Bool.not_eq_true', ← Bool.not_eq_true, isIdentifier_iff] at hspelled
    exact ⟨⟨e, he, rfl⟩, hspelled⟩
  · split at h
    · -- a reserved name
      rename_i hreserved
      obtain rfl := Option.some.inj h
      exact ⟨⟨e, he, rfl⟩, isReserved_iff.mp hreserved⟩
    · split at h
      · -- the entity is its own parent
        rename_i hparent
        obtain rfl := Option.some.inj h
        exact ⟨.single ⟨e, he, rfl, hparent⟩, .inl ⟨e, he, rfl, hparent⟩⟩
      · split at h
        · -- its attributes
          rename_i hfound
          obtain rfl := Option.some.inj h
          rcases count_of_attributeViolation? hfound with
            ⟨column, rfl, htwice⟩ | ⟨uri, rfl, htwice⟩
          · exact ⟨e, he, rfl, htwice⟩
          · exact ⟨e, he, rfl, htwice⟩
        · split at h
          · -- its unique key
            rename_i hkey
            obtain rfl := Option.some.inj h
            refine ⟨e, he, rfl, rfl, ?_⟩
            simpa [Entity.attribute?] using hkey
          · exact absurd h (by simp)

/-- Whatever is found among entities that stand in the list after the earlier ones holds of the
list. -/
theorem holds_of_firstEntityViolation? {earlier : List String} {others : List Entity}
    (hothers : others ⊆ es)
    (hcount : ∀ name, (earlier ++ others.map (·.name)).count name ≤ (es.map (·.name)).count name)
    (h : firstEntityViolation? earlier others = some violation) : violation.Holds es := by
  -- on the entities, of which the counts with those before never exceed the counts in the list
  induction others generalizing earlier with
  | nil => exact absurd h (by simp [firstEntityViolation?])
  | cons first others ih =>
    unfold firstEntityViolation? at h
    split at h
    · rename_i hfound
      obtain rfl := Option.some.inj h
      exact holds_of_entityViolation? (hothers List.mem_cons_self) hfound
    · split at h
      · rename_i hearlier
        obtain rfl := Option.some.inj h
        exact (two_le_count_append_cons hearlier).trans (hcount first.name)
      · refine ih (fun e he => hothers (List.mem_cons_of_mem _ he)) (fun name => ?_) h
        rw [count_cons_append]
        exact hcount name

theorem holds_of_parentViolation? {others : List Entity} (hothers : others ⊆ es)
    (h : parentViolation? (es.map (·.name)) others = some violation) : violation.Holds es := by
  induction others with
  | nil => exact absurd h (by simp [parentViolation?])
  -- each parent is looked for among all names, and not only among those that are left
  | cons first others ih =>
    have hrest := ih fun e he => hothers (List.mem_cons_of_mem _ he)
    unfold parentViolation? at h
    split at h
    · rename_i parent hparent
      split at h
      · exact hrest h
      · rename_i hunknown
        obtain rfl := Option.some.inj h
        refine ⟨⟨first, hothers List.mem_cons_self, rfl, hparent⟩, ?_⟩
        exact fun e he hname => hunknown (List.mem_map.mpr ⟨e, he, hname⟩)
    · exact hrest h

/-- A cycle that the sweeps find in entities that are right by themselves. -/
theorem holds_of_cycle? (hentities : firstEntityViolation? [] es = none)
    (hparents : parentViolation? (es.map (·.name)) es = none) {name : String}
    (h : cycle? es = some name) : (Violation.cyclicHierarchy name).Holds es := by
  have hnames := (names_of_firstEntityViolation? hentities).2
  have hcycle := onCycle_of_cycle? hnames (parent_mem_of_parentViolation? hparents) h
  -- an entity that is its own parent would have been found before
  have hself : ∀ e ∈ es, e.parent ≠ some e.name := fun e he =>
    (entityViolation?_eq_none_iff.mp (entityViolation?_of_mem hentities e he)).2
  exact ⟨hcycle, .inr ⟨hself, exists_nthParent?_eq_some hnames hcycle,
    Search.reports_of_cycle? hnames hself h⟩⟩

theorem holds_of_violation? (h : violation? es = some violation) : violation.Holds es := by
  unfold violation? at h
  split at h
  · rename_i hfound
    obtain rfl := Option.some.inj h
    exact holds_of_firstEntityViolation? (List.Subset.refl es) (fun name => Nat.le_refl _) hfound
  · rename_i hentities
    split at h
    · rename_i hfound
      obtain rfl := Option.some.inj h
      exact holds_of_parentViolation? (List.Subset.refl es) hfound
    · rename_i hparents
      obtain ⟨name, hname, rfl⟩ := Option.map_eq_some_iff.mp h
      exact holds_of_cycle? hentities hparents hname

end Checks

/-! ## §3 Refused lists -/

theorem Schema.violation?_of_ofEntities_error {es : List Entity} {metadata : List MetadataProperty}
    {violation : Violation} (h : ofEntities es metadata = .error violation) :
    violation? es = some violation := by
  unfold ofEntities at h
  split at h
  · exact absurd h (by simp)
  · rename_i hfound
    rw [hfound, Except.error.inj h]

/-- If a list of entities does not become a schema, it breaks the rule that is reported, and as it
is reported. -/
theorem Schema.holds_of_ofEntities_error (es : List Entity) (metadata : List MetadataProperty)
    (violation : Violation) (h : ofEntities es metadata = .error violation) :
    violation.Holds es :=
  holds_of_violation? (violation?_of_ofEntities_error h)

/-- A cycle of three entities, and ahead of it an entity that hangs below the cycle. -/
def leafBelowCycle : List Entity :=
  [⟨"Leaf", some "B", "leafID", [⟨"leafID", "urn:leafID", .string⟩]⟩,
    ⟨"A", some "C", "aID", [⟨"aID", "urn:aID", .string⟩]⟩,
    ⟨"B", some "A", "bID", [⟨"bID", "urn:bID", .string⟩]⟩,
    ⟨"C", some "B", "cID", [⟨"cID", "urn:cID", .string⟩]⟩]

/-- The search finishes the leaf first and `A`, from where it goes around the cycle, last. So the
walk begins with `A` and reports its parent. -/
theorem Schema.holds_of_ofEntities_error_leafBelowCycle :
    ofEntities leafBelowCycle [] = .error (.cyclicHierarchy "C") ∧
      (Violation.cyclicHierarchy "C").Holds leafBelowCycle := by
  have hrefused : ofEntities leafBelowCycle [] = .error (.cyclicHierarchy "C") := by rfl
  exact ⟨hrefused, holds_of_ofEntities_error leafBelowCycle [] _ hrefused⟩

end EntityQuery
