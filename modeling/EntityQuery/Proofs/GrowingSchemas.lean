import EntityQuery.Proofs.Reproduction

/-!
# Growing schemas

Entities may be added at the end of a schema without a change to the queries that compile. The new
entities may have columns in common with those that were there: unless the policy is strict, a plain
column goes to the entity that is declared first or to the root, and both are where they were.

What may change are the errors about unknown names, since the names may be those of new entities and
columns.
-/

namespace EntityQuery

/-! ## §1 Errors about names -/

/-- The error says that no entity or no column has a name. -/
inductive QueryError.IsUnknown : QueryError → Prop
  | entity (name : String) : IsUnknown (.unknownEntity name)
  | column (column : String) : IsUnknown (.unknownColumn column)

/-- An error stays, unless it is about an unknown name. -/
def StaysUnlessUnknown (e : QueryError) (r : Option QueryError) : Prop :=
  e.IsUnknown ∨ r = some e

theorem leeway_staysUnlessUnknown : Leeway StaysUnlessUnknown where
  same _ := .inr rfl
  free h _ := .inl (h.resolve_right (by simp))

namespace Schema

/-! ## §2 Plain columns -/

/-- The entity that a policy picks where it has to pick one of several. -/
def chosen (policy : ColumnPolicy) (root : String) (first : Entity) (others : List Entity) :
    Entity :=
  match policy with
  | .preferRoot => ((first :: others).find? (·.name == root)).getD first
  | _ => first

/-- Under a lenient policy, an only candidate is no special case. -/
theorem pick_cons {policy : ColumnPolicy} (hpolicy : policy ≠ .strict) (root column : String)
    (first : Entity) (others : List Entity) :
    pick policy root column (first :: others) = .ok (chosen policy root first others) := by
  -- an only candidate is chosen whether it is the root or not
  cases others with
  | nil =>
    cases policy with
    | strict => exact absurd rfl hpolicy
    | declarationOrder => rfl
    | preferRoot =>
      have honly : ([first].find? (·.name == root)).getD first = first := by
        rw [List.find?_singleton]
        split <;> rfl
      rw [chosen, honly, pick]
  | cons second others =>
    cases policy with
    | strict => exact absurd rfl hpolicy
    | declarationOrder | preferRoot => rfl

/-- Further candidates at the end change nothing, as none of them is the root. -/
theorem chosen_append (policy : ColumnPolicy) {root : String} (first : Entity)
    (others : List Entity) {more : List Entity} (hroot : ∀ e ∈ more, e.name ≠ root) :
    chosen policy root first (others ++ more) = chosen policy root first others := by
  cases policy with
  | strict | declarationOrder => rfl
  | preferRoot =>
    have hnone : more.find? (·.name == root) = none := by
      rw [List.find?_eq_none]
      simpa using hroot
    simp only [chosen, ← List.cons_append, List.find?_append, hnone, Option.or_none]

theorem pick_append {policy : ColumnPolicy} (hpolicy : policy ≠ .strict) {root : String}
    (column : String) (es : List Entity) {more : List Entity}
    (hroot : ∀ e ∈ more, e.name ≠ root) :
    Reproduces StaysUnlessUnknown (pick policy root column es)
      (pick policy root column (es ++ more)) := by
  -- without candidates the column is unknown, and the new entities may have it
  cases es with
  | nil => exact .inl (.column column)
  | cons first others =>
    rw [List.cons_append, pick_cons hpolicy, pick_cons hpolicy, chosen_append policy _ _ hroot]
    exact .refl leeway_staysUnlessUnknown _

/-! ## §3 Statements -/

variable {s s' : Schema} {more : List Entity}

/-- Names are distinct, so that a declared name is not that of a new entity. -/
theorem name_ne_of_append (hentities : s'.entities = s.entities ++ more) {root : String}
    (hroot : s.Declares [root]) : ∀ e ∈ more, e.name ≠ root := by
  rintro e he rfl
  obtain ⟨old, hold, hname⟩ := declares_singleton.mp hroot
  have hnames := s'.nodup_names
  rw [hentities, List.map_append] at hnames
  exact List.disjoint_of_nodup_append hnames (List.mem_map.mpr ⟨old, hold, hname⟩)
    (List.mem_map_of_mem he)

/-- Entities that are added at the end do not change what compiles, whatever columns they have,
unless plain columns are resolved strictly. What fails without them fails with the same error, or
for want of an entity or column. -/
theorem compile_of_entities_append (hentities : s'.entities = s.entities ++ more)
    (hmetadata : s'.metadata = s.metadata) {o : CompileOptions} (ho : o.policy ≠ .strict)
    (root : String) (e : Expression) :
    (∀ p, s.compile root e o = .ok p → s'.compile root e o = .ok p) ∧
      ∀ error, s.compile root e o = .error error →
        error.IsUnknown ∨ s'.compile root e o = .error error := by
  -- columns are found again, and the root is none of the new entities
  have hwithin : s.Within s' := ⟨hentities ▸ List.subset_append_left _ _, hmetadata⟩
  have hreproduces : Reproduces StaysUnlessUnknown (s.compile root e o) (s'.compile root e o) := by
    apply hwithin.compile leeway_staysUnlessUnknown
    · exact fun _ _ => .inr fun text _ => .inl (.entity text)
    · intro root column hroot
      rw [withColumn, withColumn, hentities, List.filter_append]
      apply pick_append ho
      intro new hnew
      exact name_ne_of_append hentities hroot new (List.mem_filter.mp hnew).1
  constructor
  · intro p hok
    rwa [hok] at hreproduces
  · intro error herror
    rw [herror] at hreproduces
    exact hreproduces.imp_right failure?_eq_some.mp

/-- The small project with tissues below the samples, which have a genus and a year as well. -/
def fieldworkWithTissues : Schema where
  entities := fieldwork.entities ++
    [⟨"Tissue", some "Sample", "tissueID",
      [⟨"tissueID", "urn:tissueID", .string⟩, ⟨"genus", "urn:tissueGenus", .string⟩,
       ⟨"year", "urn:tissueYear", .integer⟩]⟩]
  metadata := []
  valid := by decide

/-- A query for a genus and a year still means that of samples and of events. A query for tissues
was an error. -/
theorem compile_of_entities_append_fieldwork :
    ∃ p, fieldwork.compile "Event" .fieldwork {} = .ok p ∧
      fieldworkWithTissues.compile "Event" .fieldwork {} = .ok p ∧
      fieldwork.compile "Event" (.comparison "tissueID" .eq "T1") {} =
        .error (.unknownColumn "tissueID") ∧
      QueryError.IsUnknown (.unknownColumn "tissueID") := by
  have hentities : fieldworkWithTissues.entities = fieldwork.entities ++ _ := rfl
  have hpolicy : (CompileOptions.policy {}) ≠ .strict := by decide
  have hgrown := compile_of_entities_append hentities rfl hpolicy "Event"
  have hok : fieldwork.compile "Event" .fieldwork {} = .ok _ := rfl
  have herror : fieldwork.compile "Event" (.comparison "tissueID" .eq "T1") {} =
      .error (.unknownColumn "tissueID") := rfl
  refine ⟨_, hok, (hgrown .fieldwork).1 _ hok, herror, ?_⟩
  rcases (hgrown (.comparison "tissueID" .eq "T1")).2 _ herror with hunknown | hstays
  · exact hunknown
  · cases hstays

end Schema

end EntityQuery
