import EntityQuery.Proofs.Reproduction
import EntityQuery.Proofs.WellFormed

/-!
# The order of declaration

Whether a list of entities is a schema does not depend on its order, and under the strict policy
neither does what is compiled. The order is seen only in what is shown of an ambiguous column: its
entities are listed as they are declared.
-/

namespace EntityQuery

variable {es es' : List Entity}

/-! ## §1 Accepted lists -/

theorem Lawful.perm (h : Lawful es) (hperm : es.Perm es') : Lawful es' where
  entities e he := h.entities e (hperm.mem_iff.mpr he)
  names := (hperm.map (·.name)).nodup_iff.mp h.names
  parents e he parent hparent :=
    (hperm.map (·.name)).mem_iff.mp (h.parents e (hperm.mem_iff.mpr he) parent hparent)

theorem Acyclic.perm (h : Acyclic es) (hperm : es.Perm es') : Acyclic es' := by
  -- the links between parents and children do not depend on the order
  have hlinks : ParentLink es' = ParentLink es := by
    funext parent child
    simp only [ParentLink, hperm.mem_iff]
  unfold Acyclic
  rwa [hlinks]

theorem WellFormed.perm (h : WellFormed es) (hperm : es.Perm es') : WellFormed es' where
  toLawful := h.toLawful.perm hperm
  acyclic := h.acyclic.perm hperm

namespace Schema

variable {s s' : Schema}

theorem of_ofEntities {metadata : List MetadataProperty} (h : ofEntities es metadata = .ok s) :
    s.entities = es ∧ s.metadata = metadata := by
  unfold ofEntities at h
  split at h
  · obtain rfl := Except.ok.inj h
    exact ⟨rfl, rfl⟩
  · exact absurd h (by simp)

theorem exists_ofEntities_iff_violation? {metadata : List MetadataProperty} :
    (∃ s, ofEntities es metadata = .ok s) ↔ violation? es = none :=
  ⟨fun ⟨_, hs⟩ => violation?_of_ofEntities hs, fun h => ⟨_, ofEntities_of_violation?_eq_none h⟩⟩

/-- A list of entities is accepted in every order or in none. -/
theorem exists_ofEntities_perm (hperm : es.Perm es') (metadata : List MetadataProperty) :
    (∃ s, ofEntities es metadata = .ok s) ↔ ∃ s, ofEntities es' metadata = .ok s := by
  simp only [exists_ofEntities_iff_violation?, violation?_eq_none_iff_wellFormed]
  exact ⟨fun h => h.perm hperm, fun h => h.perm hperm.symm⟩

end Schema

/-! ## §2 Errors up to order -/

/-- Two errors that are the same, but for the order in which entities are listed. -/
inductive QueryError.Similar : QueryError → QueryError → Prop
  | refl (e : QueryError) : Similar e e
  | ambiguousColumn (column : String) {entities entities' : List String}
      (h : entities.Perm entities') :
      Similar (.ambiguousColumn column entities) (.ambiguousColumn column entities')

theorem QueryError.Similar.code_eq {e e' : QueryError} (h : e.Similar e') : e'.code = e.code := by
  cases h <;> rfl

/-- An error becomes a similar one. -/
def BecomesSimilar (e : QueryError) (r : Option QueryError) : Prop :=
  ∃ e', r = some e' ∧ e.Similar e'

theorem leeway_becomesSimilar : Leeway BecomesSimilar where
  same e := ⟨e, rfl, .refl e⟩
  free h := by
    obtain ⟨e', hnone, -⟩ := h
    exact absurd hnone (by simp)

/-! ## §3 Strict resolution -/

namespace Schema

variable {s s' : Schema}

/-- The strict policy picks an entity only where there is no other one. -/
theorem pick_perm (root column : String) (hperm : es.Perm es') :
    Reproduces BecomesSimilar (pick .strict root column es) (pick .strict root column es') := by
  -- the length of the list decides, and lists in another order are as long
  match es, hperm with
  | [], hperm =>
    obtain rfl := hperm.nil_eq
    exact .refl leeway_becomesSimilar _
  | [only], hperm =>
    obtain rfl := List.singleton_perm.mp hperm
    exact .refl leeway_becomesSimilar _
  | first :: second :: others, hperm =>
    have hlength := hperm.length_eq
    match es', hperm with
    | first' :: second' :: others', hperm =>
      exact ⟨_, rfl, .ambiguousColumn column (hperm.map (·.name))⟩

theorem entity?_eq_none_of_perm (hperm : s.entities.Perm s'.entities) {name : String}
    (h : s.entity? name = none) : s'.entity? name = none := by
  rw [entity?, List.find?_eq_none] at h ⊢
  exact fun e he => h e (hperm.mem_iff.mpr he)

theorem compile_perm (hperm : s.entities.Perm s'.entities) (hmetadata : s'.metadata = s.metadata)
    {o : CompileOptions} (ho : o.policy = .strict) (root : String) (e : Expression) :
    Reproduces BecomesSimilar (s.compile root e o) (s'.compile root e o) := by
  -- looking up an entity finds it in any order, as names are distinct
  have hwithin : s.Within s' := ⟨hperm.subset, hmetadata⟩
  apply hwithin.compile leeway_becomesSimilar
  · exact fun name hname => .inl (entity?_eq_none_of_perm hperm hname)
  · intro root column _
    rw [ho]
    exact pick_perm root column (hperm.filter _)

/-- The order of declaration does not matter: a list of entities is accepted in every order or in
none, and under the strict policy all orders give the same statement and the same values, or errors
with one code that differ at most in the order in which entities are listed. -/
theorem compile_independent_of_order (hperm : es.Perm es') (metadata : List MetadataProperty) :
    ((∃ s, ofEntities es metadata = .ok s) ↔ ∃ s, ofEntities es' metadata = .ok s) ∧
      ∀ s s', ofEntities es metadata = .ok s → ofEntities es' metadata = .ok s' →
        ∀ root e (o : CompileOptions), o.policy = .strict →
          (∃ p, s.compile root e o = .ok p ∧ s'.compile root e o = .ok p) ∨
          ∃ error error', s.compile root e o = .error error ∧
            s'.compile root e o = .error error' ∧
            error'.code = error.code ∧ error.Similar error' := by
  refine ⟨exists_ofEntities_perm hperm metadata, ?_⟩
  intro s s' hs hs' root e o ho
  obtain ⟨rfl, rfl⟩ := of_ofEntities hs
  obtain ⟨rfl, hmetadata⟩ := of_ofEntities hs'
  have hreproduces := compile_perm hperm hmetadata ho root e
  cases hcompile : s.compile root e o with
  | ok p =>
    rw [hcompile] at hreproduces
    exact .inl ⟨p, rfl, hreproduces⟩
  | error error =>
    rw [hcompile] at hreproduces
    obtain ⟨error', herror', hsimilar⟩ := hreproduces
    exact .inr ⟨error, error', rfl, failure?_eq_some.mp herror', hsimilar.code_eq, hsimilar⟩

/-- Events and samples, each of a year. -/
def yearly : List Entity :=
  [⟨"Event", none, "eventID",
    [⟨"eventID", "urn:eventID", .string⟩, ⟨"year", "urn:year", .integer⟩]⟩,
   ⟨"Sample", some "Event", "sampleID",
    [⟨"sampleID", "urn:sampleID", .string⟩, ⟨"year", "urn:year", .integer⟩]⟩]

/-- With the samples declared first, the years of events are found as before, and the year that
could be that of a sample is still ambiguous. -/
theorem compile_independent_of_order_yearly :
    ∃ s s', ofEntities yearly [] = .ok s ∧ ofEntities yearly.reverse [] = .ok s' ∧
      (∃ p, s.compile "Sample" (.comparison "Event.year" .eq "2020") { policy := .strict } = .ok p ∧
        s'.compile "Sample" (.comparison "Event.year" .eq "2020") { policy := .strict } = .ok p) ∧
      ∃ error', s.compile "Sample" (.comparison "year" .eq "2020") { policy := .strict } =
          .error (.ambiguousColumn "year" ["Event", "Sample"]) ∧
        s'.compile "Sample" (.comparison "year" .eq "2020") { policy := .strict } = .error error' ∧
        (QueryError.ambiguousColumn "year" ["Event", "Sample"]).Similar error' := by
  have hperm : yearly.Perm yearly.reverse := (List.reverse_perm yearly).symm
  have hs : ofEntities yearly [] = .ok _ := rfl
  have hs' : ofEntities yearly.reverse [] = .ok _ := rfl
  obtain ⟨-, hsame⟩ := compile_independent_of_order hperm []
  have hsame := fun e => hsame _ _ hs hs' "Sample" e { policy := .strict } rfl
  refine ⟨_, _, hs, hs', ?_, ?_⟩
  · -- the query compiles from the list as it was declared, so it does from the other one
    rcases hsame (.comparison "Event.year" .eq "2020") with h | herror
    · exact h
    · obtain ⟨_, _, herror, -⟩ := herror
      cases herror
  · rcases hsame (.comparison "year" .eq "2020") with hok | herror
    · obtain ⟨_, hok, -⟩ := hok
      cases hok
    · obtain ⟨_, error', ⟨⟩, herror', -, hsimilar⟩ := herror
      exact ⟨error', rfl, herror', hsimilar⟩

end Schema

end EntityQuery
