import EntityQuery.Proofs.Joins.Names
import EntityQuery.Proofs.KeyGroups
import EntityQuery.Proofs.WhereClause

/-!
# Columns with a value

A test that columns have a value is read as a question about JSON columns: which keys they have. It
is true exactly if every requested property is a key of the JSON column that it lies in; identifiers
are not asked for (`present_tests_requested_keys`). Every property of a table is bound once, and the
conditions depend on the set of the columns only, whatever the tokens are.
-/

namespace EntityQuery

open Sql (Condition Test IsReading)
open Drafting (Steps entry entries Apart)

/-! ## §1 Keys of JSON columns -/

/-- Which keys the JSON columns of tables have. -/
abbrev Blobs := (table jsonColumn key : String) → Bool

/-- Tests for keys have the values that they have on some blobs. -/
structure Blobs.Decide (blobs : Blobs) (v : Assignment Predicate) : Prop where
  hasKey : ∀ i table jsonColumn key, v i (.hasKey table jsonColumn key) = blobs table jsonColumn key
  hasKeys : ∀ i table jsonColumn keys,
    v i (.hasKeys table jsonColumn keys) = keys.all (blobs table jsonColumn)
  always : ∀ i, v i .always = true

theorem Blobs.Decide.hasAll {blobs : Blobs} {v : Assignment Predicate} (h : blobs.Decide v)
    (i : Nat) (table jsonColumn : String) (keys : List String) :
    v i (.hasAll table jsonColumn keys) = keys.all (blobs table jsonColumn) := by
  unfold Test.hasAll
  split
  · simp [h.hasKey]
  · exact h.hasKeys i table jsonColumn _

/-- What a test for keys asks for: the JSON column, and the keys in whatever order. -/
def Sql.Test.content? : Predicate → Option ((String × String) × Multiset String)
  | .hasKey table jsonColumn key => some ((table, jsonColumn), {key})
  | .hasKeys table jsonColumn keys => some ((table, jsonColumn), ↑keys)
  | _ => none

theorem Sql.Test.content?_hasAll (table jsonColumn : String) (keys : List String) :
    (Test.hasAll table jsonColumn keys).content? = some ((table, jsonColumn), ↑keys) := by
  unfold Test.hasAll
  split <;> rfl

/-! ## §2 Requested properties -/

/-- A property of a JSON column is requested by one of the tokens. -/
def Scope.Requests (scope : Scope) (tokens : List String) (e : (String × String) × String) : Prop :=
  ∃ token ∈ tokens, ∃ c, scope.schema.resolve scope.policy scope.root token = .ok c ∧
    c.isIdentifier = false ∧ e = entry c

namespace Scope

variable {scope : Scope} {tokens : List String}

theorem column?_eq_some_iff {token : String} {c : Column} :
    scope.column? token = some c ↔
      scope.schema.resolve scope.policy scope.root token = .ok c := by
  unfold column?
  cases scope.schema.resolve scope.policy scope.root token <;> simp [Except.toOption]

theorem mem_entries_requested {e : (String × String) × String} :
    e ∈ entries (scope.requested tokens) ↔ scope.Requests tokens e := by
  simp only [requested, Drafting.mem_entries_propertiesByPlace, List.mem_filter, List.mem_filterMap,
    column?_eq_some_iff, Requests]
  grind

theorem apart_requested (scope : Scope) (tokens : List String) : Apart (scope.requested tokens) :=
  Drafting.apart_propertiesByPlace _

/-- The JSON column is told by the table, as no entity is named like the table of expeditions. -/
theorem jsonColumn_of_resolve {token : String} {c : Column}
    (h : scope.schema.resolve scope.policy scope.root token = .ok c) :
    c.jsonColumn = if c.table = expeditionsTable then "metadata" else "data" := by
  unfold Column.table Column.jsonColumn
  cases hsource : c.source with
  | entity owner =>
    -- the owner of a column is an entity of the schema, and no entity is named `expeditions`
    have hdeclares : scope.schema.Declares [owner.name] :=
      Schema.declares_singleton.mpr ⟨owner, Schema.owner_mem_of_resolve h hsource, rfl⟩
    exact (if_neg (hdeclares.ne_expeditionsTable _ List.mem_cons_self)).symm
  | expedition => rfl

theorem Requests.eq_of_table_eq {e e' : (String × String) × String} (h : scope.Requests tokens e)
    (h' : scope.Requests tokens e') (htable : e.1.1 = e'.1.1) (hkey : e.2 = e'.2) : e = e' := by
  obtain ⟨token, -, c, hc, -, rfl⟩ := h
  obtain ⟨token', -, c', hc', -, rfl⟩ := h'
  -- the JSON column follows from the table
  have hjson : c.jsonColumn = c'.jsonColumn := by
    rw [jsonColumn_of_resolve hc, jsonColumn_of_resolve hc', show c.table = c'.table from htable]
  exact Prod.ext (Prod.ext htable hjson) hkey

/-- What is requested depends on the columns only that the tokens stand for. -/
theorem requests_congr {tokens' : List String}
    (h : ∀ c, (∃ token ∈ tokens, scope.schema.resolve scope.policy scope.root token = .ok c) ↔
      ∃ token ∈ tokens', scope.schema.resolve scope.policy scope.root token = .ok c)
    (e : (String × String) × String) : scope.Requests tokens e ↔ scope.Requests tokens' e := by
  have hcolumns : ∀ tokens, scope.Requests tokens e ↔ ∃ c,
      (∃ token ∈ tokens, scope.schema.resolve scope.policy scope.root token = .ok c) ∧
        c.isIdentifier = false ∧ e = entry c := by
    -- the columns stand in the way between tokens and entries
    intro tokens
    unfold Requests
    grind
  simp only [hcolumns, h]

end Scope

/-! ## §3 The visit succeeds -/

namespace Drafting

variable {scope : Scope}

theorem exists_steps_mapM_resolve {tokens : List String}
    (h : ∀ token ∈ tokens, ∃ c, scope.schema.resolve scope.policy scope.root token = .ok c)
    (d : Draft) : ∃ columns d', Steps (tokens.mapM (resolve scope)) d columns d' := by
  induction tokens generalizing d with
  | nil => exact ⟨[], d, rfl⟩
  | cons token tokens ih =>
    obtain ⟨⟨c, hc⟩, htokens⟩ := List.forall_mem_cons.mp h
    -- what comes behind the first token is resolved on the draft that the first one leaves
    obtain ⟨columns, d', hcolumns⟩ := ih htokens (d.withJoins (d.joins.requireSource c.source))
    refine ⟨c :: columns, d', ?_⟩
    simp only [List.mapM_cons, steps_bind, steps_pure]
    exact ⟨c, _, steps_resolve_of_ok hc d, columns, d', hcolumns, rfl, rfl⟩

theorem exists_steps_hasKeys (g : KeyGroup) (d : Draft) : ∃ c d', Steps (hasKeys g) d c d' := by
  unfold hasKeys
  -- one key or several, they are bound and the test is made
  split <;> exact ⟨_, _, rfl⟩

theorem exists_steps_mapM_hasKeys (groups : List KeyGroup) (d : Draft) :
    ∃ cs d', Steps (groups.mapM hasKeys) d cs d' := by
  induction groups generalizing d with
  | nil => exact ⟨[], d, rfl⟩
  | cons g groups ih =>
    obtain ⟨c, d₁, hc⟩ := exists_steps_hasKeys g d
    obtain ⟨cs, d', hcs⟩ := ih d₁
    refine ⟨c :: cs, d', ?_⟩
    simp only [List.mapM_cons, steps_bind, steps_pure]
    exact ⟨c, d₁, hc, cs, d', hcs, rfl, rfl⟩

theorem exists_steps_present {tokens : List String} (hne : tokens ≠ [])
    (h : ∀ token ∈ tokens, ∃ c, scope.schema.resolve scope.policy scope.root token = .ok c)
    (d : Draft) : ∃ c d', Steps (present scope tokens) d c d' := by
  -- the tokens are resolved, their columns grouped, and a condition is made of each group
  obtain ⟨columns, d₁, hcolumns⟩ := exists_steps_mapM_resolve h d
  obtain ⟨cs, d₂, hcs⟩ := exists_steps_mapM_hasKeys (keyGroups columns) d₁
  simp only [present, List.isEmpty_iff, hne, if_false, steps_bind]
  cases cs with
  | nil => exact ⟨_, _, columns, d₁, hcolumns, [], d₂, hcs, rfl⟩
  | cons first others => exact ⟨_, _, columns, d₁, hcolumns, first :: others, d₂, hcs, rfl⟩

end Drafting

/-! ## §4 The fragment of a test -/

/-- A visit adds a fragment to the WHERE clause, which has one reading. -/
structure Draft.AddsFragment (d : Draft) (scope : Scope) (e : Expression) (d' : Draft)
    (c : Condition) (f : Formula (Test Nat)) : Prop where
  visit : d.visit scope e = (.ok (), d')
  condition : d'.condition = Drafting.combine .and d.condition (some c)
  reading : ∀ g, IsReading c.tokens g ↔ g = f

namespace Draft.AddsFragment

variable {d d' : Draft} {scope : Scope} {e : Expression} {c : Condition} {f : Formula (Test Nat)}

theorem exists_writes (h : d.AddsFragment scope e d' c f) (he : e.isTest) :
    ∃ d₁, Writes scope d e (some c) d₁ ∧ d'.params = d₁.params := by
  obtain ⟨r, d₁, hsteps, hd'⟩ := visit_eq_ok.mp h.visit
  have hwrites := hsteps.writes
  -- a test leaves a condition
  have hsome : r.isSome = true := by
    rw [hwrites.isSome_eq]
    simp [Expression.restricts, Expression.nodes_of_isTest he, he]
  obtain ⟨c', rfl⟩ := Option.isSome_iff_exists.mp hsome
  have hcondition : Drafting.combine .and d.condition (some c') =
      Drafting.combine .and d.condition (some c) := by
    rw [← h.condition, hd', hwrites.condition_eq]
  -- what is added at the end of the clause can be taken off again
  obtain rfl : c' = c := by
    cases hd : d.condition with
    | none =>
      rw [hd] at hcondition
      exact Option.some.inj hcondition
    | some before =>
      rw [hd] at hcondition
      exact (Condition.and.inj (Option.some.inj hcondition)).2
  exact ⟨d₁, hwrites, by rw [hd']⟩

/-- The fragment of a test says that all its predicates hold. -/
theorem exists_agrees (h : d.AddsFragment scope e d' c f) (he : e.isTest) :
    ∃ p ps, scope.predicates e = p :: ps ∧
      (f.map (Test.map d'.params.valueOf)).Agrees ((ps.map .atom).foldl .and (.atom p)) := by
  obtain ⟨d₁, hwrites, hparams⟩ := h.exists_writes he
  have hmeaning := hwrites.meaning_eq (List.prefix_refl d₁.params.values)
  have hnested : e.WellNested := by
    cases e <;> trivial
  have hagrees := (hwrites.wellNested hnested c rfl).agrees ((h.reading f).mpr rfl)
  rw [Expression.formula_of_isTest he, Option.map_some] at hmeaning
  -- a formula is there, so it has a first predicate
  cases hps : scope.predicates e with
  | nil =>
    rw [hps] at hmeaning
    exact absurd hmeaning (by simp [Formula.conjunction?])
  | cons p ps =>
    rw [hps] at hmeaning
    refine ⟨p, ps, rfl, ?_⟩
    rw [← Option.some.inj hmeaning, hparams]
    exact hagrees.map _

theorem atoms_eq (h : d.AddsFragment scope e d' c f) (he : e.isTest) :
    (f.map (Test.map d'.params.valueOf)).atoms = scope.predicates e := by
  obtain ⟨p, ps, hps, hagrees⟩ := h.exists_agrees he
  rw [hagrees.atoms, hps]
  simp [Formula.atoms_foldl_and, Formula.atoms, List.flatMap_map]

theorem value_eq (h : d.AddsFragment scope e d' c f) (he : e.isTest) (v : Assignment Predicate)
    (k : Nat) : (f.map (Test.map d'.params.valueOf)).value v k =
      Formula.allTrue v k ((scope.predicates e).map .atom) := by
  obtain ⟨p, ps, hps, hagrees⟩ := h.exists_agrees he
  rw [hagrees.value, Formula.value_foldl_and, hps]
  rfl

theorem values_eq (h : d.AddsFragment scope e d' c f) (he : e.isTest) :
    d'.params.values = d.params.values ++ e.literals scope := by
  obtain ⟨d₁, hwrites, hparams⟩ := h.exists_writes he
  rw [hparams, hwrites.values_params]

end Draft.AddsFragment

/-- If the truth of predicates does not depend on their places, a conjunction is true if all of them
are. -/
theorem Formula.allTrue_atoms {v : Assignment Predicate} {truth : Predicate → Bool}
    {ps : List Predicate} (h : ∀ i, ∀ p ∈ ps, v i p = truth p) (k : Nat) :
    Formula.allTrue v k (ps.map .atom) = ps.all truth := by
  induction ps generalizing k with
  | nil => rfl
  | cons p ps ih =>
    rw [List.map_cons, Formula.allTrue, ih fun i q hq => h i q (List.mem_cons_of_mem _ hq)]
    simp [Formula.value, h k p List.mem_cons_self]

/-! ## §5 The test for columns with a value -/

theorem Drafting.exists_addsFragment_present {scope : Scope} {tokens : List String}
    (hne : tokens ≠ [])
    (h : ∀ token ∈ tokens, ∃ c, scope.schema.resolve scope.policy scope.root token = .ok c)
    (d : Draft) : ∃ d' c f, d.AddsFragment scope (.present tokens) d' c f := by
  -- the visit writes a condition, and every condition has one reading
  obtain ⟨c, d₁, hsteps⟩ := exists_steps_present hne h d
  have hcondition : Steps (condition scope (.present tokens)) d (some c) d₁ := by
    simp only [condition, steps_bind, steps_pure]
    exact ⟨c, d₁, hsteps, rfl, rfl⟩
  obtain ⟨f, hreading, -⟩ := c.exists_isReading
  refine ⟨_, c, f, Draft.visit_eq_ok.mpr ⟨_, _, hcondition, rfl⟩, ?_,
    fun g => ⟨fun hg => hg.unique hreading, fun hg => hg ▸ hreading⟩⟩
  rw [hcondition.writes.condition_eq]

section Present

variable {scope : Scope} {tokens : List String} {d d' : Draft} {c : Condition}
  {f : Formula (Test Nat)}

theorem predicates_present (scope : Scope) (tokens : List String) :
    scope.predicates (.present tokens) =
      if scope.requested tokens = [] then [.always]
      else (scope.requested tokens).map fun g => .hasAll g.table g.jsonColumn g.keys := by
  simp only [Scope.predicates]
  cases scope.requested tokens <;> simp

theorem requested_eq_nil_iff :
    scope.requested tokens = [] ↔ ∀ e, ¬ scope.Requests tokens e := by
  simp only [← Scope.mem_entries_requested]
  constructor
  · intro hnil e he
    rw [hnil] at he
    exact absurd he List.not_mem_nil
  · intro hnone
    by_contra hne
    obtain ⟨g, hg⟩ := List.exists_mem_of_ne_nil _ hne
    -- each group has a key, and with it something that is requested
    have hgroups := scope.apart_requested tokens
    obtain ⟨key, hkey⟩ := List.exists_mem_of_ne_nil _ (hgroups.nonempty g hg)
    exact hnone _ ((hgroups.mem_keys_iff hg).mp hkey)

/-- The predicates are true on blobs that have all requested keys. -/
theorem allTrue_predicates_present {blobs : Blobs} {v : Assignment Predicate}
    (hv : blobs.Decide v) (k : Nat) :
    Formula.allTrue v k ((scope.predicates (.present tokens)).map .atom) = true ↔
      ∀ e, scope.Requests tokens e → blobs e.1.1 e.1.2 e.2 = true := by
  rw [predicates_present]
  split
  · -- nothing is requested, and the constant is true
    rename_i hnil
    have hnone := requested_eq_nil_iff.mp hnil
    simp [Formula.allTrue, Formula.value, hv.always, hnone]
  · -- what is true of one key does not depend on where the test stands
    have htruth : ∀ i, ∀ p ∈ (scope.requested tokens).map
        fun g => (Test.hasAll g.table g.jsonColumn g.keys : Predicate), v i p = v 0 p := by
      intro i p hp
      obtain ⟨g, -, rfl⟩ := List.mem_map.mp hp
      rw [hv.hasAll, hv.hasAll]
    rw [Formula.allTrue_atoms htruth]
    simp only [List.all_map, List.all_eq_true, Function.comp_apply, hv.hasAll,
      ← Scope.mem_entries_requested, entries, List.mem_flatMap, List.mem_map]
    constructor
    · rintro hall e ⟨g, hg, key, hkey, rfl⟩
      exact hall g hg key hkey
    · intro hall g hg key hkey
      exact hall _ ⟨g, hg, key, hkey, rfl⟩

/-- What the fragment asks of JSON columns, but for the order of the keys. -/
theorem map_content?_predicates_present (scope : Scope) (tokens : List String) :
    (scope.predicates (.present tokens)).map Test.content? =
      if scope.requested tokens = [] then [none]
      else (scope.requested tokens).map fun g => some g.content := by
  rw [predicates_present]
  split
  · rfl
  · simp only [List.map_map, Function.comp_def, Test.content?_hasAll]
    rfl

/-- The fragment is a constant if nothing is requested. -/
theorem Draft.AddsFragment.tokens_eq_true_iff
    (h : d.AddsFragment scope (.present tokens) d' c f) :
    c.tokens = [.keyword .TRUE] ↔ ∀ e, ¬ scope.Requests tokens e := by
  rw [← requested_eq_nil_iff]
  constructor
  · intro htokens
    have hreading : IsReading c.tokens (.atom .always) := by
      rw [htokens]
      exact (Sql.Reads.test .always).toDisjunction
    have hcontents := map_content?_predicates_present scope tokens
    rw [← h.atoms_eq rfl, ← (h.reading _).mp hreading] at hcontents
    -- a test for keys would ask for something
    by_contra hne
    rw [if_neg hne] at hcontents
    have hnone : none ∈ (scope.requested tokens).map fun g => some g.content :=
      hcontents ▸ List.mem_singleton_self _
    simp at hnone
  · -- without requested properties the only predicate is the constant
    intro hnil
    obtain ⟨d₁, hwrites, -⟩ := h.exists_writes rfl
    cases hwrites with
    | test _ _ hwritten =>
      obtain ⟨t, ts, rfl, htests, -⟩ := hwritten
      rw [predicates_present, if_pos hnil] at htests
      obtain ⟨rfl, rfl⟩ := List.cons.inj htests
      rfl

theorem Scope.not_requests_iff : (∀ e, ¬ scope.Requests tokens e) ↔
    ∀ token ∈ tokens, ∀ column,
      scope.schema.resolve scope.policy scope.root token = .ok column →
        column.isIdentifier = true := by
  constructor
  · intro hnone token htoken column hcolumn
    by_contra hplain
    exact hnone _ ⟨token, htoken, column, hcolumn, by simpa using hplain, rfl⟩
  · rintro hidentifiers _ ⟨token, htoken, column, hcolumn, hplain, rfl⟩
    rw [hidentifiers token htoken column hcolumn] at hplain
    exact absurd hplain (by simp)

/-- The properties that are bound, each with the table that it is read from. -/
def Scope.boundProperties (scope : Scope) (tokens : List String) : List (String × String) :=
  (entries (scope.requested tokens)).map fun e => (e.1.1, e.2)

theorem Scope.nodup_boundProperties (scope : Scope) (tokens : List String) :
    (scope.boundProperties tokens).Nodup := by
  -- entries are told apart by table and key, as the table tells the JSON column
  refine List.Nodup.map_on ?_ (scope.apart_requested tokens).nodup_entries
  intro e he e' he' heq
  obtain ⟨htable, hkey⟩ := Prod.mk.inj heq
  exact (Scope.mem_entries_requested.mp he).eq_of_table_eq (Scope.mem_entries_requested.mp he')
    htable hkey

theorem Scope.mem_boundProperties {pair : String × String} :
    pair ∈ scope.boundProperties tokens ↔ ∃ token ∈ tokens, ∃ column,
      scope.schema.resolve scope.policy scope.root token = .ok column ∧
        column.isIdentifier = false ∧ pair = (column.table, column.property) := by
  simp only [boundProperties, List.mem_map, Scope.mem_entries_requested]
  constructor
  · rintro ⟨_, ⟨token, htoken, column, hcolumn, hplain, rfl⟩, rfl⟩
    exact ⟨token, htoken, column, hcolumn, hplain, rfl⟩
  · rintro ⟨token, htoken, column, hcolumn, hplain, rfl⟩
    exact ⟨_, ⟨token, htoken, column, hcolumn, hplain, rfl⟩, rfl⟩

theorem Draft.AddsFragment.values_present (h : d.AddsFragment scope (.present tokens) d' c f) :
    d'.params.values = d.params.values ++ (scope.boundProperties tokens).map (·.2) := by
  have hliterals : (Expression.present tokens).literals scope =
      (scope.requested tokens).flatMap (·.keys) := by
    simp [Expression.literals, Expression.nodes, Scope.literals]
  rw [h.values_eq rfl, hliterals, Scope.boundProperties, List.map_map,
    ← Drafting.map_snd_entries]
  rfl

/-- Tokens for the same columns ask the same of JSON columns. -/
theorem perm_content?_of_requests {tokens' : List String}
    (h : ∀ e, scope.Requests tokens e ↔ scope.Requests tokens' e) :
    ((scope.predicates (.present tokens)).map Test.content?).Perm
      ((scope.predicates (.present tokens')).map Test.content?) := by
  rw [map_content?_predicates_present, map_content?_predicates_present]
  have hnil : scope.requested tokens = [] ↔ scope.requested tokens' = [] := by
    rw [requested_eq_nil_iff, requested_eq_nil_iff]
    simp only [h]
  -- the groups of both have the same entries, and so the same contents up to their order
  have hcontents := (scope.apart_requested tokens).perm_contents (scope.apart_requested tokens')
    fun e => by rw [Scope.mem_entries_requested, Scope.mem_entries_requested, h]
  have hsome := hcontents.map some
  rw [List.map_map, List.map_map] at hsome
  by_cases hempty : scope.requested tokens = []
  · rw [if_pos hempty, if_pos (hnil.mp hempty)]
  · rw [if_neg hempty, if_neg (hnil.not.mp hempty)]
    exact hsome

end Present

/-- A test that columns have a value can always be written if the columns are known. It is true
exactly if the JSON columns have all properties that are requested, and a constant if there are
none; each property of a table is bound once; and what is asked of the JSON columns depends on the
columns only, not on the order or number of the tokens or on which tokens stand for them. -/
theorem Draft.present_tests_requested_keys {scope : Scope} {tokens : List String}
    (hne : tokens ≠ [])
    (hresolve : ∀ token ∈ tokens, ∃ c,
      scope.schema.resolve scope.policy scope.root token = .ok c) (d : Draft) :
    ∃ d' c f, d.AddsFragment scope (.present tokens) d' c f ∧
      (∀ (blobs : Blobs) (v : Assignment Predicate) (k : Nat), blobs.Decide v →
        ((f.map (Test.map d'.params.valueOf)).value v k = true ↔
          ∀ token ∈ tokens, ∀ column,
            scope.schema.resolve scope.policy scope.root token = .ok column →
            column.isIdentifier = false →
            blobs column.table column.jsonColumn column.property = true)) ∧
      (c.tokens = [.keyword .TRUE] ↔ ∀ token ∈ tokens, ∀ column,
        scope.schema.resolve scope.policy scope.root token = .ok column →
        column.isIdentifier = true) ∧
      (∃ bound : List (String × String), bound.Nodup ∧
        (∀ pair, pair ∈ bound ↔ ∃ token ∈ tokens, ∃ column,
          scope.schema.resolve scope.policy scope.root token = .ok column ∧
          column.isIdentifier = false ∧ pair = (column.table, column.property)) ∧
        d'.params.values = d.params.values ++ bound.map (·.2)) ∧
      ∀ (tokens' : List String) (e e' : Draft) (c' : Condition) (f' : Formula (Test Nat)),
        (∀ column,
          (∃ token ∈ tokens, scope.schema.resolve scope.policy scope.root token = .ok column) ↔
            ∃ token ∈ tokens', scope.schema.resolve scope.policy scope.root token = .ok column) →
        e.AddsFragment scope (.present tokens') e' c' f' →
        ((f.map (Test.map d'.params.valueOf)).atoms.map Test.content?).Perm
          ((f'.map (Test.map e'.params.valueOf)).atoms.map Test.content?) := by
  obtain ⟨d', c, f, hadds⟩ := Drafting.exists_addsFragment_present hne hresolve d
  -- the truth, the constant, the values and the contents are taken one by one
  refine ⟨d', c, f, hadds, fun blobs v k hv => ?_, ?_, ?_, ?_⟩
  · rw [hadds.value_eq rfl, allTrue_predicates_present hv]
    constructor
    · intro h token htoken column hcolumn hplain
      exact h _ ⟨token, htoken, column, hcolumn, hplain, rfl⟩
    · rintro h _ ⟨token, htoken, column, hcolumn, hplain, rfl⟩
      exact h token htoken column hcolumn hplain
  · rw [hadds.tokens_eq_true_iff, Scope.not_requests_iff]
  · exact ⟨_, scope.nodup_boundProperties tokens, fun _ => Scope.mem_boundProperties,
      hadds.values_present⟩
  · intro tokens' e e' c' f' hcolumns hadds'
    rw [hadds.atoms_eq rfl, hadds'.atoms_eq rfl]
    exact perm_content?_of_requests (Scope.requests_congr hcolumns)

/-- One property is named twice, an identifier has no key, and one property is that of
expeditions. -/
theorem Draft.present_tests_requested_keys_fieldwork :
    ∃ d c f, Scope.fieldwork.emptyDraft.AddsFragment .fieldwork
        (.present ["genus", "eventID", "Sample.genus", "expedition.funding"]) d c f ∧
      c.tokens ≠ [.keyword .TRUE] ∧
      ∀ (blobs : Blobs) (v : Assignment Predicate) (k : Nat), blobs.Decide v →
        ((f.map (Test.map d.params.valueOf)).value v k = true ↔
          blobs "Sample" "data" "urn:'genus" = true ∧
            blobs "expeditions" "metadata" "funding" = true) := by
  have hgenus : Scope.fieldwork.schema.resolve Scope.fieldwork.policy Scope.fieldwork.root
      "genus" = .ok _ := rfl
  have heventID : Scope.fieldwork.schema.resolve Scope.fieldwork.policy Scope.fieldwork.root
      "eventID" = .ok _ := rfl
  have hqualified : Scope.fieldwork.schema.resolve Scope.fieldwork.policy Scope.fieldwork.root
      "Sample.genus" = .ok _ := rfl
  have hfunding : Scope.fieldwork.schema.resolve Scope.fieldwork.policy Scope.fieldwork.root
      "expedition.funding" = .ok _ := rfl
  have hresolve : ∀ token ∈ ["genus", "eventID", "Sample.genus", "expedition.funding"], ∃ c,
      Scope.fieldwork.schema.resolve Scope.fieldwork.policy Scope.fieldwork.root token = .ok c := by
    simp only [List.forall_mem_cons]
    exact ⟨⟨_, hgenus⟩, ⟨_, heventID⟩, ⟨_, hqualified⟩, ⟨_, hfunding⟩, by simp⟩
  obtain ⟨d, c, f, hadds, htruth, hconstant, -⟩ :=
    present_tests_requested_keys (List.cons_ne_nil _ _) hresolve Scope.fieldwork.emptyDraft
  refine ⟨d, c, f, hadds, fun htokens => ?_, fun blobs v k hv => ?_⟩
  · -- the genus is no identifier, so the test is no constant
    exact absurd (hconstant.mp htokens "genus" List.mem_cons_self _ hgenus) (by decide)
  · rw [htruth blobs v k hv]
    simp only [List.forall_mem_cons, hgenus, heventID, hqualified, hfunding, Except.ok.injEq]
    constructor
    · rintro ⟨hmentioned, -, -, hproperty, -⟩
      exact ⟨hmentioned _ rfl rfl, hproperty _ rfl rfl⟩
    · rintro ⟨hmentioned, hproperty⟩
      -- two tokens stand for the genus, and the identifier asks for nothing
      refine ⟨?_, ?_, ?_, ?_, by simp⟩
      · rintro _ rfl -
        exact hmentioned
      · rintro _ rfl hplain
        exact absurd hplain (by decide)
      · rintro _ rfl -
        exact hmentioned
      · rintro _ rfl -
        exact hproperty

end EntityQuery
