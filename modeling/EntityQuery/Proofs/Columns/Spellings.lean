import EntityQuery.Proofs.BoundLiterals
import EntityQuery.Proofs.Columns.Resolution

/-!
# Spellings of metadata properties

The metadata of expeditions is looked up without regard to letter case, but only its type is taken
from there. The key under which the value is read is the property as the token spells it. So two
spellings of one property have the same type and are read in the same way, though under different
keys: columns and compiled statements are the same only if the spellings are.
-/

namespace EntityQuery

open Sql (Condition Lexeme Test)

/-! ## §1 Metadata columns -/

/-- The qualifier of metadata has no dot in it, however it is written. -/
theorem dot_notMem_of_expedition {qualifier : String}
    (h : Text.sameIgnoringCase qualifier expeditionQualifier = true) :
    '.' ∉ qualifier.toList := by
  intro hdot
  -- letter case leaves the dot as it is, and there is none in `expedition`
  have hmem : Char.toLower '.' ∈ Text.foldCase qualifier := List.mem_map_of_mem hdot
  rw [Text.sameIgnoringCase_iff.mp h] at hmem
  exact absurd hmem (by decide)

namespace Schema

variable {s : Schema} {qualifier property : String}

theorem resolve_expedition (policy : ColumnPolicy) (root : String)
    (h : Text.sameIgnoringCase qualifier expeditionQualifier = true) :
    s.resolve policy root (qualifier ++ "." ++ property) =
      if property = "" then .error (.unknownColumn (qualifier ++ "." ++ property))
      else .ok (.ofMetadata s property) := by
  rw [resolve_eq_resolveQualified s policy root property (dot_notMem_of_expedition h),
    resolveQualified, if_pos h]
  simp only [String.isEmpty_iff]

theorem metadataProperty?_congr {property' : String}
    (h : Text.sameIgnoringCase property property' = true) :
    s.metadataProperty? property = s.metadataProperty? property' := by
  unfold metadataProperty? Text.sameIgnoringCase
  rw [Text.sameIgnoringCase_iff.mp h]

/-- Of the properties that are declared under a name in whatever case the first one is found. -/
theorem exists_metadataProperty? {p : MetadataProperty} (hp : p ∈ s.metadata) :
    ∃ declared, s.metadataProperty? p.name = some declared := by
  rw [← Option.isSome_iff_exists, metadataProperty?, List.find?_isSome]
  -- every declared name is found at least at its own place
  exact ⟨p, hp, Text.sameIgnoringCase_iff.mpr rfl⟩

end Schema

theorem Column.render_ofMetadata (s : Schema) (property : String) :
    Sql.render (ofMetadata s property).access.tokens =
      "expeditions.metadata->>" ++ Sql.quoted '\'' property := by
  rw [show (ofMetadata s property).access = .property "expeditions" "metadata" property from rfl,
    Access.render_property]
  rfl

/-! ## §2 Tests of one column -/

/-- A test that an expression makes of a single column. -/
inductive ColumnTest
  | compare (operator : ComparisonOperator) (term : String)
  | range (spec : String)
  | like (term : String)
  | present
  deriving DecidableEq, Repr

/-- The test of the column that a token stands for. -/
def ColumnTest.on (token : String) : ColumnTest → Expression
  | compare operator term => .comparison token operator term
  | range spec => .range token spec
  | like term => .like token term
  | present => .present [token]

theorem Drafting.exists_steps_within (c : Column) (range : Range) (d : Draft) :
    ∃ condition, Steps (within c range) d condition
      (d.withValues (range.bounds.map (·.2))) := by
  cases range with
  | above lower | below upper => exact ⟨_, rfl⟩
  | between lower upper =>
    -- the two values are bound one after the other, which is the same as binding both
    have hrun : Steps (within c (.between lower upper)) d _
        ((d.withValues [lower.value]).withValues [upper.value]) := rfl
    rw [Draft.withValues_withValues] at hrun
    exact ⟨_, hrun⟩

/-- A token stands for a metadata property with a column. -/
structure Scope.FindsProperty (scope : Scope) (token : String) (c : Column) : Prop where
  resolve_eq : scope.schema.resolve scope.policy scope.root token = .ok c
  source : c.source = .expedition
  plain : c.isIdentifier = false

namespace Scope.FindsProperty

open Drafting

variable {scope : Scope} {token : String} {c : Column}

theorem steps_resolve (h : scope.FindsProperty token c) (d : Draft) :
    Steps (resolve scope token) d c (d.withJoins d.joins.requireExpeditions) := by
  simp only [resolve, steps_bind, steps_except, steps_pure]
  refine ⟨c, d, ⟨h.resolve_eq, rfl⟩, (), _, ?_, rfl, rfl⟩
  rw [h.source]
  exact steps_modify.mpr rfl

/-- A single property is in a group of its own. -/
theorem steps_present (h : scope.FindsProperty token c) (d : Draft) :
    ∃ condition, Steps (present scope [token]) d condition
      ((d.withJoins d.joins.requireExpeditions).withValues [c.property]) := by
  -- a property of expeditions is no identifier, so it is asked for
  have hgroups : Drafting.keyGroups [c] = [⟨c.table, c.jsonColumn, [c.property]⟩] := by
    simp [Drafting.keyGroups, h.plain, addKey]
  have hcolumns : Steps ([token].mapM (resolve scope)) d [c]
      (d.withJoins d.joins.requireExpeditions) := by
    simp only [List.mapM_cons, List.mapM_nil, steps_bind, steps_pure]
    exact ⟨c, _, h.steps_resolve d, [], _, ⟨rfl, rfl⟩, rfl, rfl⟩
  refine ⟨.test (.hasKey c.table c.jsonColumn d.params.next), ?_⟩
  simp only [present, List.isEmpty_cons, Bool.false_eq_true, if_false, steps_bind]
  refine ⟨[c], _, hcolumns, ?_⟩
  rw [hgroups]
  exact ⟨_, _, rfl, rfl⟩

end Scope.FindsProperty

/-! ## §3 Compiled tests -/

/-- Whether a test is understood does not depend on the property: it is refused for all of them, or
it becomes a condition and asks for the expeditions. -/
theorem ColumnTest.condition_cases (t : ColumnTest) (scope : Scope) (d : Draft) :
    (∃ error, ∀ token c, scope.FindsProperty token c →
        Drafting.attempt (Drafting.condition scope (t.on token)) d = .error error) ∨
      ∀ token c, scope.FindsProperty token c → ∃ condition values,
        Drafting.Steps (Drafting.condition scope (t.on token)) d (some condition)
          ((d.withJoins d.joins.requireExpeditions).withValues values) := by
  cases t with
  -- such a test is always understood
  | compare operator term | like term =>
    refine .inr fun token c h => ?_
    simp only [on, Drafting.condition, Drafting.steps_bind]
    exact ⟨_, [term], c, _, h.steps_resolve d, _, _, rfl, rfl⟩
  | range spec =>
    -- a range is refused or understood for its text alone
    cases hrange : Range.parse? spec with
    | none =>
      refine .inl ⟨.invalid (.invalidRange spec), fun token c h => ?_⟩
      rw [on, Drafting.condition, Drafting.attempt_bind,
        Drafting.attempt_eq_ok.mpr (h.steps_resolve d), hrange]
      rfl
    | some range =>
      refine .inr fun token c h => ?_
      obtain ⟨condition, hwithin⟩ := Drafting.exists_steps_within c range
        (d.withJoins d.joins.requireExpeditions)
      refine ⟨condition, range.bounds.map (·.2), ?_⟩
      simp only [on, Drafting.condition, Drafting.steps_bind, hrange]
      exact ⟨c, _, h.steps_resolve d, condition, _, hwithin, rfl⟩
  | present =>
    refine .inr fun token c h => ?_
    obtain ⟨condition, hpresent⟩ := h.steps_present d
    refine ⟨condition, [c.property], ?_⟩
    simp only [on, Drafting.condition, Drafting.steps_bind]
    exact ⟨condition, _, hpresent, rfl⟩

/-- Two drafts with a condition that ask for the same tables. Their statements differ in what the
conditions say. -/
structure Draft.Peers (d d' : Draft) : Prop where
  joins : d'.joins = d.joins
  condition : d.finalCondition = .ok d.condition
  condition' : d'.finalCondition = .ok d'.condition

/-- Both drafts fail with the same error, or both have a statement. -/
theorem Draft.Peers.prepare {d d' : Draft} (h : d.Peers d') (scope : Scope) (network : Nat)
    (publicOnly : Bool) (p : Pagination) :
    (∃ error, d.prepare scope network publicOnly p = .error error ∧
        d'.prepare scope network publicOnly p = .error error) ∨
      ∃ r r', d.prepare scope network publicOnly p = .ok r ∧
        d'.prepare scope network publicOnly p = .ok r' := by
  -- the plan of the joins depends on what is asked for alone
  have hjoins : d'.finalJoins = d.finalJoins := by
    rw [Draft.finalJoins, Draft.finalJoins, h.joins]
  rw [Draft.prepare, Draft.prepare, Draft.query, Draft.query, h.condition, h.condition', hjoins]
  -- the limit, the joins and the window are checked in this order, on both drafts alike
  by_cases hlimit : p.limit = some 0
  · simp only [if_pos hlimit]
    exact .inl ⟨.invalid .zeroLimit, rfl, rfl⟩
  · simp only [if_neg hlimit]
    cases d.finalJoins.joins scope.schema network with
    | error error => exact .inl ⟨error, rfl, rfl⟩
    | ok joins =>
      cases p.window with
      | error error => exact .inl ⟨error, rfl, rfl⟩
      | ok rows => exact .inr ⟨_, _, rfl, rfl⟩

/-- The outcome of a test does not depend on the property, but for what the statement says: both
tests fail with the same error or both compile. -/
theorem ColumnTest.compile_cases (t : ColumnTest) {scope : Scope} {token token' : String}
    {c c' : Column} (h : scope.FindsProperty token c) (h' : scope.FindsProperty token' c')
    (network : Nat) (publicOnly : Bool) (p : Pagination) :
    (∃ error, scope.compile network publicOnly p (t.on token) = .error error ∧
        scope.compile network publicOnly p (t.on token') = .error error) ∨
      ∃ r r', scope.compile network publicOnly p (t.on token) = .ok r ∧
        scope.compile network publicOnly p (t.on token') = .ok r' := by
  rcases t.condition_cases scope scope.emptyDraft with ⟨error, hrefused⟩ | hunderstood
  · -- what is refused on the empty draft is refused as a query
    have hcompile : ∀ token c, scope.FindsProperty token c →
        scope.compile network publicOnly p (t.on token) = .error error := by
      intro token c hfinds
      rw [Scope.compile_eq, Drafting.visit, Drafting.attempt_bind, hrefused token c hfinds]
      rfl
    exact .inl ⟨error, hcompile token c h, hcompile token' c' h'⟩
  · -- otherwise both visits succeed, and they leave drafts of the same joins
    obtain ⟨condition, values, hsteps⟩ := hunderstood token c h
    obtain ⟨condition', values', hsteps'⟩ := hunderstood token' c' h'
    have hvisit := Draft.visit_eq_ok.mpr ⟨_, _, hsteps, rfl⟩
    have hvisit' := Draft.visit_eq_ok.mpr ⟨_, _, hsteps', rfl⟩
    rw [Scope.compile, Scope.compile, hvisit, hvisit']
    refine Draft.Peers.prepare ?_ scope network publicOnly p
    exact ⟨rfl, rfl, rfl⟩

/-- A test does not look at a token beyond the column that it stands for. -/
theorem ColumnTest.condition_congr (t : ColumnTest) {scope : Scope} {token token' : String}
    (h : scope.schema.resolve scope.policy scope.root token =
      scope.schema.resolve scope.policy scope.root token') :
    Drafting.condition scope (t.on token) = Drafting.condition scope (t.on token') := by
  have hresolve : Drafting.resolve scope token = Drafting.resolve scope token' := by
    rw [Drafting.resolve, Drafting.resolve, h]
  -- the token enters every test through its column
  cases t <;>
    simp only [on, Drafting.condition, Drafting.present, List.isEmpty_cons, List.mapM_cons,
      hresolve]

theorem ColumnTest.compile_congr (t : ColumnTest) {scope : Scope} {token token' : String}
    {c : Column} (h : scope.FindsProperty token c) (h' : scope.FindsProperty token' c)
    (network : Nat) (publicOnly : Bool) (p : Pagination) :
    scope.compile network publicOnly p (t.on token) =
      scope.compile network publicOnly p (t.on token') := by
  rw [Scope.compile_eq, Scope.compile_eq, Drafting.visit, Drafting.visit,
    t.condition_congr (h.resolve_eq.trans h'.resolve_eq.symm)]

/-! ## §4 Properties in statements -/

/-- The strings in the text of a statement: what it shows, then the properties that it reads. -/
theorem Compiles.filterMap_string? {s : Schema} {root : String} {e : Expression}
    {o : CompileOptions} {scope : Scope} {d : Draft} {steps : List JoinStep} {q : Sql.Query}
    (h : Compiles s root e o scope d steps q) :
    (q.tokens.flatMap Sql.Token.lexemes).filterMap Lexeme.string? =
      d.shown scope ++ (e.nodes.flatMap scope.predicates).flatMap Test.properties := by
  rw [Sql.filterMap_lexemes fun _ hl => (Lexeme.selections_eq_none hl).1, h.content_tokens,
    ← h.flatMap_properties_tests]
  simp [Test.content, List.filterMap_flatMap, Lexeme.string?, Function.comp_def]

namespace Scope.FindsProperty

variable {scope : Scope} {token : String} {c : Column}

theorem column?_eq (h : scope.FindsProperty token c) : scope.column? token = some c := by
  rw [column?, h.resolve_eq]
  rfl

theorem properties_access (h : scope.FindsProperty token c) :
    c.access.properties = [c.property] := by
  -- an identifier would be read from a column of its own
  obtain ⟨hlocal, hparent⟩ := Bool.or_eq_false_iff.mp h.plain
  rw [Column.access, hlocal, hparent]
  rfl

/-- A test other than that of presence writes its property once for each of its comparisons. -/
theorem properties_predicates (h : scope.FindsProperty token c) {t : ColumnTest}
    (ht : t ≠ .present) {d d' : Draft} (hvisit : d.visit scope (t.on token) = (.ok (), d')) :
    ∃ n, ((t.on token).nodes.flatMap scope.predicates).flatMap Test.properties =
      List.replicate (n + 1) c.property := by
  cases t with
  | present => exact absurd rfl ht
  | compare operator term | like term =>
    refine ⟨0, ?_⟩
    simp [ColumnTest.on, Expression.nodes, predicates, h.column?_eq, Test.properties,
      h.properties_access]
  | range spec =>
    obtain ⟨_, _, hsteps, -⟩ := Draft.visit_eq_ok.mp hvisit
    simp only [ColumnTest.on, Drafting.condition, Drafting.steps_bind] at hsteps
    obtain ⟨_, _, -, hsteps⟩ := hsteps
    -- the visit has succeeded, so there is a range
    split at hsteps
    · rename_i range hrange
      refine ⟨range.bounds.length - 1, ?_⟩
      -- a range has one bound or two, and each writes the property once
      cases range <;>
        simp [ColumnTest.on, Expression.nodes, predicates, h.column?_eq, hrange, Range.bounds,
          Range.lower?, Range.upper?, Test.properties, h.properties_access, List.replicate]
    · exact absurd hsteps Drafting.not_steps_reject

theorem literals_present (h : scope.FindsProperty token c) :
    (ColumnTest.present.on token).literals scope = [c.property] := by
  simp [ColumnTest.on, Expression.literals, Expression.nodes, literals, requested,
    propertiesByPlace, h.column?_eq, h.plain, List.eraseDups_cons]

end Scope.FindsProperty

/-- Tests of two properties that compile to the same statement and the same values are tests of one
property. -/
theorem ColumnTest.property_eq_of_compile {s : Schema} {root : String} {o : CompileOptions}
    {scope : Scope} (hscope : s.scope o.policy root = .ok scope) {token token' : String}
    {c c' : Column} (h : scope.FindsProperty token c) (h' : scope.FindsProperty token' c')
    {t : ColumnTest} {r : Sql.Prepared} (hr : s.compile root (t.on token) o = .ok r)
    (hr' : s.compile root (t.on token') o = .ok r) : c.property = c'.property := by
  obtain ⟨scope₁, _, _, _, hcompiles, rfl⟩ := Schema.exists_compiles hr
  obtain ⟨scope₂, _, _, _, hcompiles', hsame⟩ := Schema.exists_compiles hr'
  -- both statements are compiled in the one scope of the schema
  obtain rfl : scope₁ = scope := Except.ok.inj (hcompiles.inScope.symm.trans hscope)
  obtain rfl : scope₂ = scope₁ := Except.ok.inj (hcompiles'.inScope.symm.trans hscope)
  obtain ⟨htext, hparams⟩ := Sql.Prepared.mk.inj hsame
  by_cases hpresent : t = .present
  · -- the property is the value that is bound
    subst hpresent
    have hvalues := hcompiles.values_params.symm.trans
      ((congrArg Sql.Params.values hparams).trans hcompiles'.values_params)
    rw [h.literals_present, h'.literals_present] at hvalues
    exact List.singleton_inj.mp hvalues
  · -- the property is the last of the strings in the text
    have hlexemes := hcompiles.lex?_text.symm.trans
      ((congrArg Sql.lex? htext).trans hcompiles'.lex?_text)
    have hstrings := congrArg (List.filterMap Lexeme.string?) (Option.some.inj hlexemes)
    rw [hcompiles.filterMap_string?, hcompiles'.filterMap_string?] at hstrings
    obtain ⟨n, hproperties⟩ := h.properties_predicates hpresent hcompiles.visited
    obtain ⟨n', hproperties'⟩ := h'.properties_predicates hpresent hcompiles'.visited
    rw [hproperties, hproperties'] at hstrings
    have hlast := congrArg List.getLast? hstrings
    simpa [List.getLast?_append, List.getLast?_replicate] using hlast

/-! ## §5 Spellings of one property -/

/-- A column is found for each spelling of a property that has a name. -/
theorem Schema.findsProperty_of_scope {s : Schema} {policy : ColumnPolicy} {root : String}
    {qualifier property : String}
    (h : Text.sameIgnoringCase qualifier expeditionQualifier = true) (hproperty : property ≠ "")
    {scope : Scope} (hscope : s.scope policy root = .ok scope) :
    scope.FindsProperty (qualifier ++ "." ++ property) (.ofMetadata s property) where
  resolve_eq := by
    rw [resolve_expedition _ _ h, if_neg hproperty, (of_scope hscope).1]
  source := rfl
  plain := rfl

theorem Column.dataType_ofMetadata {s : Schema} {property : String} {p declared : MetadataProperty}
    (hproperty : Text.sameIgnoringCase property p.name = true)
    (hdeclared : s.metadataProperty? p.name = some declared) :
    (ofMetadata s property).dataType = declared.dataType := by
  rw [ofMetadata, Schema.metadataProperty?_congr hproperty, hdeclared]
  rfl

/-- Whether a text is empty does not depend on letter case. -/
theorem Text.eq_empty_iff {text text' : String} (h : sameIgnoringCase text text' = true) :
    text = "" ↔ text' = "" := by
  have hlength := congrArg List.length (sameIgnoringCase_iff.mp h)
  simp only [foldCase, List.length_map, String.length_toList] at hlength
  rw [← String.length_eq_zero_iff, ← String.length_eq_zero_iff, hlength]

namespace Schema

variable {s : Schema} {qualifier qualifier' property property' : String}

/-- Tests of two properties, however the qualifiers are spelled: they fail alike, or they compile to
the same if and only if the properties are spelled alike. -/
theorem compile_of_expedition
    (hqualifier : Text.sameIgnoringCase qualifier expeditionQualifier = true)
    (hqualifier' : Text.sameIgnoringCase qualifier' expeditionQualifier = true)
    (hne : property ≠ "") (hne' : property' ≠ "") (root : String) (t : ColumnTest)
    (o : CompileOptions) :
    (∃ error, s.compile root (t.on (qualifier ++ "." ++ property)) o = .error error ∧
        s.compile root (t.on (qualifier' ++ "." ++ property')) o = .error error) ∨
      ∃ r r', s.compile root (t.on (qualifier ++ "." ++ property)) o = .ok r ∧
        s.compile root (t.on (qualifier' ++ "." ++ property')) o = .ok r' ∧
        (r = r' ↔ property = property') := by
  -- the options may be invalid for both
  rcases s.compile_cases root o with ⟨error, herror⟩ | ⟨scope, limit, hscope, hcompile⟩
  · exact .inl ⟨error, herror _, herror _⟩
  · have hfinds := findsProperty_of_scope hqualifier hne hscope
    have hfinds' := findsProperty_of_scope hqualifier' hne' hscope
    -- whether the tests compile is the same for both
    rcases t.compile_cases hfinds hfinds' o.network o.publicOnly ⟨o.page, limit⟩ with
      ⟨error, herror, herror'⟩ | ⟨r, r', hr, hr'⟩
    · exact .inl ⟨error, (hcompile _).trans herror, (hcompile _).trans herror'⟩
    · rw [← hcompile] at hr hr'
      refine .inr ⟨r, r', hr, hr', ?_, ?_⟩
      · -- from the statement the property can be read back
        rintro rfl
        exact ColumnTest.property_eq_of_compile hscope hfinds hfinds' hr hr'
      · -- one property has one column, whatever the qualifier
        rintro rfl
        rw [hcompile] at hr hr'
        rw [t.compile_congr hfinds hfinds'] at hr
        exact Except.ok.inj (hr.symm.trans hr')

/-- Two spellings of a declared metadata property stand for columns of one type, that of the first
property declared under the name in whatever case, but each is read under the key as it is spelled.
So the columns are the same if and only if the properties are spelled alike, and the same goes for
what tests of the columns compile to. Only a property without a name is not found at all. -/
theorem spellings_denote_one_column_iff (s : Schema) {p : MetadataProperty}
    (hp : p ∈ s.metadata) {qualifier qualifier' property property' : String}
    (hqualifier : Text.sameIgnoringCase qualifier expeditionQualifier = true)
    (hqualifier' : Text.sameIgnoringCase qualifier' expeditionQualifier = true)
    (hproperty : Text.sameIgnoringCase property p.name = true)
    (hproperty' : Text.sameIgnoringCase property' p.name = true) (root : String) :
    (p.name = "" → ∀ policy,
        s.resolve policy root (qualifier ++ "." ++ property) =
            .error (.unknownColumn (qualifier ++ "." ++ property)) ∧
          s.resolve policy root (qualifier' ++ "." ++ property') =
            .error (.unknownColumn (qualifier' ++ "." ++ property'))) ∧
      (p.name ≠ "" →
        (∀ policy, ∃ c c' declared,
          s.resolve policy root (qualifier ++ "." ++ property) = .ok c ∧
            s.resolve policy root (qualifier' ++ "." ++ property') = .ok c' ∧
            s.metadataProperty? p.name = some declared ∧
            c.dataType = declared.dataType ∧ c'.dataType = declared.dataType ∧
            Sql.render c.access.tokens = "expeditions.metadata->>" ++ Sql.quoted '\'' property ∧
            Sql.render c'.access.tokens = "expeditions.metadata->>" ++ Sql.quoted '\'' property' ∧
            (c = c' ↔ property = property')) ∧
          ∀ (t : ColumnTest) (o : CompileOptions),
            (∃ error, s.compile root (t.on (qualifier ++ "." ++ property)) o = .error error ∧
              s.compile root (t.on (qualifier' ++ "." ++ property')) o = .error error) ∨
            ∃ r r', s.compile root (t.on (qualifier ++ "." ++ property)) o = .ok r ∧
              s.compile root (t.on (qualifier' ++ "." ++ property')) o = .ok r' ∧
              (r = r' ↔ property = property')) := by
  have hempty := Text.eq_empty_iff hproperty
  have hempty' := Text.eq_empty_iff hproperty'
  -- the two properties are as empty as the declared one
  constructor
  · intro hname policy
    rw [resolve_expedition policy root hqualifier, resolve_expedition policy root hqualifier',
      if_pos (hempty.mpr hname), if_pos (hempty'.mpr hname)]
    exact ⟨rfl, rfl⟩
  · intro hname
    refine ⟨?_, compile_of_expedition hqualifier hqualifier' (mt hempty.mp hname)
      (mt hempty'.mp hname) root⟩
    intro policy
    -- the type is looked up regardless of case, and the key is taken from the token
    obtain ⟨declared, hdeclared⟩ := exists_metadataProperty? hp
    refine ⟨.ofMetadata s property, .ofMetadata s property', declared, ?_, ?_, hdeclared,
      Column.dataType_ofMetadata hproperty hdeclared,
      Column.dataType_ofMetadata hproperty' hdeclared, Column.render_ofMetadata s property,
      Column.render_ofMetadata s property', congrArg Column.property, ?_⟩
    · rw [resolve_expedition policy root hqualifier, if_neg (mt hempty.mp hname)]
    · rw [resolve_expedition policy root hqualifier', if_neg (mt hempty'.mp hname)]
    · exact congrArg (Column.ofMetadata s)

/-- Events of expeditions that may be under an embargo. -/
def embargoes : Schema where
  entities := [⟨"Event", none, "eventID", [⟨"eventID", "urn:eventID", .string⟩]⟩]
  metadata := [⟨"embargoed", .boolean⟩]
  valid := by decide

/-- With capital letters the property has its type, but is read under a key that nothing was stored
under; a test of it compiles to another statement. -/
theorem spellings_denote_one_column_iff_embargoes :
    ∃ c c' r r', embargoes.resolve .declarationOrder "Event" "expedition.embargoed" = .ok c ∧
      embargoes.resolve .declarationOrder "Event" "Expedition.EMBARGOED" = .ok c' ∧
      c.dataType = .boolean ∧ c'.dataType = .boolean ∧ c ≠ c' ∧
      Sql.render c.access.tokens = "expeditions.metadata->>'embargoed'" ∧
      Sql.render c'.access.tokens = "expeditions.metadata->>'EMBARGOED'" ∧
      embargoes.compile "Event" (.comparison "expedition.embargoed" .eq "false") {} = .ok r ∧
      embargoes.compile "Event" (.comparison "Expedition.EMBARGOED" .eq "false") {} = .ok r' ∧
      r ≠ r' := by
  obtain ⟨-, hnamed⟩ := spellings_denote_one_column_iff embargoes (p := ⟨"embargoed", .boolean⟩)
    List.mem_cons_self (by decide : Text.sameIgnoringCase "expedition" expeditionQualifier = true)
    (by decide : Text.sameIgnoringCase "Expedition" expeditionQualifier = true)
    (by decide : Text.sameIgnoringCase "embargoed" "embargoed" = true)
    (by decide : Text.sameIgnoringCase "EMBARGOED" "embargoed" = true) "Event"
  obtain ⟨hcolumns, htests⟩ := hnamed (by decide)
  have hspelled : "embargoed" ≠ "EMBARGOED" := by decide
  obtain ⟨c, c', declared, hc, hc', hdeclared, htype, htype', hread, hread', hsame⟩ :=
    hcolumns .declarationOrder
  obtain rfl : ⟨"embargoed", .boolean⟩ = declared := Option.some.inj hdeclared
  -- a comparison of a known column is never refused
  rcases htests (.compare .eq "false") {} with ⟨error, herror, -⟩ | ⟨r, r', hr, hr', hsame'⟩
  · cases herror
  · exact ⟨c, c', r, r', hc, hc', htype, htype', mt hsame.mp hspelled, hread, hread', hr, hr',
      mt hsame'.mp hspelled⟩

end Schema

end EntityQuery
