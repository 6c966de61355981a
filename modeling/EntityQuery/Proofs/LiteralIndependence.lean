import EntityQuery.Compile
import EntityQuery.Proofs.Written

/-!
# Statements do not depend on literals

Expressions that differ in their literals only are compiled to one text, or rejected for the same
reason. Their visits are compared step by step: drafts that differ in their bound values only, and
not in the number of these, are taken to such drafts again with the same outcome. A draft is then
assembled without a look at its values.
-/

namespace EntityQuery

/-! ## §1 Expressions -/

namespace Range

/-- The operators of the bounds of a range. -/
def operators (r : Range) : List ComparisonOperator :=
  r.bounds.map (·.1)

@[simp] theorem operators_above (lower : Bound) :
    (above lower).operators = [lowerOperator lower] := by
  rfl

@[simp] theorem operators_below (upper : Bound) :
    (below upper).operators = [upperOperator upper] := by
  rfl

@[simp] theorem operators_between (lower upper : Bound) :
    (between lower upper).operators = [lowerOperator lower, upperOperator upper] := by
  rfl

theorem lowerOperator_ne_upperOperator (lower upper : Bound) :
    lowerOperator lower ≠ upperOperator upper := by
  unfold lowerOperator upperOperator
  split <;> split <;> decide

end Range

namespace Expression

/-- Two expressions that differ in their literals only. -/
inductive Alike : Expression → Expression → Prop
  | comparison (token : String) (operator : ComparisonOperator) (term term' : String) :
      Alike (.comparison token operator term) (.comparison token operator term')
  /-- Both specifications can be read, and they have bounds of the same kinds. -/
  | range (token : String) {spec spec' : String} {r r' : Range}
      (hr : Range.parse? spec = some r) (hr' : Range.parse? spec' = some r')
      (h : ∀ operator, operator ∈ r.operators ↔ operator ∈ r'.operators) :
      Alike (.range token spec) (.range token spec')
  | like (token term term' : String) : Alike (.like token term) (.like token term')
  /-- Both terms have words. -/
  | search (column : Option String) {term term' : String}
      (h : termWords term ≠ []) (h' : termWords term' ≠ []) :
      Alike (.search column term) (.search column term')
  | present (tokens : List String) : Alike (.present tokens) (.present tokens)
  | not {inner inner' : Expression} (h : Alike inner inner') : Alike (.not inner) (.not inner')
  | logical (connective : Connective) {left left' right right' : Expression}
      (hl : Alike left left') (hr : Alike right right') :
      Alike (.logical connective left right) (.logical connective left' right')
  | group {inner inner' : Expression} (h : Alike inner inner') :
      Alike (.group inner) (.group inner')
  | expedition {codes codes' : List String} (h : codes.length = codes'.length) :
      Alike (.expedition codes) (.expedition codes')
  | project {ids ids' : List Int64} (h : ids.length = ids'.length) :
      Alike (.project ids) (.project ids')
  | select (entities : List String) : Alike (.select entities) (.select entities)
  | selectWith (entities : List String) {inner inner' : Expression} (h : Alike inner inner') :
      Alike (.selectWith entities inner) (.selectWith entities inner')
  | all : Alike .all .all
  | empty : Alike .empty .empty

end Expression

/-! ## §2 Steps -/

/-- Two drafts that differ in their bound values only. -/
structure Draft.Alike (d d' : Draft) : Prop where
  size : d.params.size = d'.params.size
  joins : d.joins = d'.joins
  condition : d.condition = d'.condition
  all : d.all = d'.all

namespace Drafting

variable {α β : Type}

/-- Two steps that take drafts alike to drafts alike, with the same outcome. -/
def Alike (x x' : Drafting α) : Prop :=
  ∀ d d' : Draft, d.Alike d' →
    (outcome x d).1 = (outcome x' d').1 ∧ (outcome x d).2.Alike (outcome x' d').2

theorem isEmpty_eq_of_length_eq {xs ys : List α} (h : xs.length = ys.length) :
    xs.isEmpty = ys.isEmpty := by
  rw [Bool.eq_iff_iff, List.isEmpty_iff_length_eq_zero, List.isEmpty_iff_length_eq_zero, h]

namespace Alike

theorem pure (a : α) : Alike (pure a) (pure a) :=
  fun _ _ hd => ⟨rfl, hd⟩

theorem reject (reason : InvalidReason) : Alike (reject reason : Drafting α) (reject reason) :=
  fun _ _ hd => ⟨rfl, hd⟩

theorem throw (e : QueryError) : Alike (throw e : Drafting α) (throw e) :=
  fun _ _ hd => ⟨rfl, hd⟩

theorem liftM (r : Except QueryError α) : Alike (liftM r) (liftM r) :=
  fun _ _ hd => ⟨rfl, hd⟩

/-- What follows two steps alike sees one result. -/
theorem bind {x x' : Drafting α} {f f' : α → Drafting β} (hx : Alike x x')
    (hf : ∀ a, Alike (f a) (f' a)) : Alike (x >>= f) (x' >>= f') := by
  intro d d' hd
  -- equal outcomes are both a result or both the same error
  obtain ⟨heq, hd₁⟩ := hx d d' hd
  rw [outcome_bind, outcome_bind]
  revert heq hd₁
  generalize outcome x d = r
  generalize outcome x' d' = r'
  obtain ⟨a, d₁⟩ := r
  obtain ⟨a', d₁'⟩ := r'
  rintro rfl hd₁
  cases a with
  | ok a => exact hf a _ _ hd₁
  | error e => exact ⟨rfl, hd₁⟩

theorem mapM {f f' : β → Drafting α} (h : ∀ b, Alike (f b) (f' b)) (bs : List β) :
    Alike (bs.mapM f) (bs.mapM f') := by
  induction bs with
  | nil => exact pure []
  | cons b bs ih =>
    rw [List.mapM_cons, List.mapM_cons]
    exact (h b).bind fun a => ih.bind fun as => pure (a :: as)

theorem forM {f f' : β → Drafting Unit} (h : ∀ b, Alike (f b) (f' b)) (bs : List β) :
    Alike (bs.forM f) (bs.forM f') := by
  induction bs with
  | nil => exact pure ()
  | cons b bs ih => exact (h b).bind fun _ => ih

/-- A change that no value takes part in. -/
theorem modify {f : Draft → Draft} (h : ∀ d d', d.Alike d' → (f d).Alike (f d')) :
    Alike (modify f) (modify f) :=
  fun d d' hd => ⟨rfl, h d d' hd⟩

/-- A value is bound under the same number, whatever it is. -/
theorem bindValue (value value' : String) : Alike (Drafting.bind value) (Drafting.bind value') := by
  intro d d' hd
  have hsize := hd.size
  -- the number depends on how many values there are, not on what they are
  refine ⟨?_, ?_, hd.joins, hd.condition, hd.all⟩
  · show Except.ok d.params.next = Except.ok d'.params.next
    rw [Sql.Params.next, hsize]
    rfl
  · show (d.params.push value).size = (d'.params.push value').size
    simpa [Sql.Params.size, Sql.Params.push] using hsize

theorem bindAll {values values' : List String} (h : values.length = values'.length) :
    Alike (Drafting.bindAll values) (Drafting.bindAll values') := by
  intro d d' hd
  have hsize := hd.size
  -- numbers are given out from the size on, and sizes and lengths agree
  refine ⟨?_, ?_, hd.joins, hd.condition, hd.all⟩
  · show Except.ok (d.params.numbersFor values) = Except.ok (d'.params.numbersFor values')
    rw [Sql.Params.numbersFor, Sql.Params.numbersFor, Sql.Params.next, Sql.Params.next, hsize, h]
  · show (d.params.append values).size = (d'.params.append values').size
    simpa [Sql.Params.size, Sql.Params.append, h] using hsize

/-- A change of the tables that are asked for. -/
theorem modifyJoins (f : JoinRequest → JoinRequest) :
    Alike (MonadState.modifyGet fun d => ((), { d with joins := f d.joins }))
      (MonadState.modifyGet fun d => ((), { d with joins := f d.joins })) :=
  modify fun _ _ hd => ⟨hd.size, congrArg f hd.joins, hd.condition, hd.all⟩

theorem resolve (scope : Scope) (token : String) :
    Alike (Drafting.resolve scope token) (Drafting.resolve scope token) := by
  refine (liftM _).bind fun c => Alike.bind ?_ fun _ => pure c
  cases c.source with
  | entity owner => exact modifyJoins (·.require owner.name)
  | expedition => exact modifyJoins (·.requireExpeditions)

theorem selectEntity (scope : Scope) (name : String) :
    Alike (Drafting.selectEntity scope name) (Drafting.selectEntity scope name) := by
  unfold Drafting.selectEntity
  split
  · rename_i e _
    exact modifyJoins (·.select e.name)
  · exact throw _

/-- Both steps are rejected in the same case. -/
theorem rejectIf (c : Prop) [Decidable c] (reason : InvalidReason) {x x' : Drafting α}
    (h : Alike x x') :
    Alike (if c then Drafting.reject reason >>= fun (_ : Unit) => x else x)
      (if c then Drafting.reject reason >>= fun (_ : Unit) => x' else x') := by
  split
  · exact (reject reason).bind fun _ => h
  · exact h

/-! ## §3 Nodes -/

theorem compare (column : Column) (operator : ComparisonOperator) (value value' : String) :
    Alike (Drafting.compare column operator value) (Drafting.compare column operator value') :=
  (bindValue value value').bind fun _ => pure _

theorem within (column : Column) {r r' : Range}
    (h : ∀ operator, operator ∈ r.operators ↔ operator ∈ r'.operators) :
    Alike (Drafting.within column r) (Drafting.within column r') := by
  have hne := Range.lowerOperator_ne_upperOperator
  have hne' := fun lower upper => (hne lower upper).symm
  -- the same operators on both sides, and lower bounds never have those of upper ones
  cases r with
  | above lower =>
    have hlower := h (Range.lowerOperator lower)
    cases r' with
    | above lower' =>
      rw [Range.operators_above, Range.operators_above, List.mem_singleton, List.mem_singleton,
        eq_self, true_iff] at hlower
      rw [Drafting.within, Drafting.within, hlower]
      exact compare _ _ _ _
    | below upper' => simp [hne] at hlower
    | between lower' upper' =>
      have hupper := h (Range.upperOperator upper')
      simp [hne'] at hupper
  | below upper =>
    have hupper := h (Range.upperOperator upper)
    cases r' with
    | above lower' => simp [hne'] at hupper
    | below upper' =>
      rw [Range.operators_below, Range.operators_below, List.mem_singleton, List.mem_singleton,
        eq_self, true_iff] at hupper
      rw [Drafting.within, Drafting.within, hupper]
      exact compare _ _ _ _
    | between lower' upper' =>
      have hlower := h (Range.lowerOperator lower')
      simp [hne] at hlower
  | between lower upper =>
    have hlower := h (Range.lowerOperator lower)
    have hupper := h (Range.upperOperator upper)
    cases r' with
    | above lower' => simp [hne'] at hupper
    | below upper' => simp [hne] at hlower
    | between lower' upper' =>
      simp only [Range.operators_between, List.mem_cons, List.not_mem_nil, hne, hne', or_false,
        false_or, or_true, true_iff] at hlower hupper
      rw [Drafting.within, Drafting.within, hlower, hupper]
      exact (compare _ _ _ _).bind fun _ => (compare _ _ _ _).bind fun _ => pure _

theorem search (scope : Scope) (column : Option String) {term term' : String}
    (h : termWords term ≠ []) (h' : termWords term' ≠ []) :
    Alike (Drafting.search scope column term) (Drafting.search scope column term') := by
  -- both terms are searched for, by one text each
  rw [Drafting.search, Drafting.search, searchText?_eq_some h, searchText?_eq_some h']
  cases column with
  | none => exact (bindValue _ _).bind fun _ => pure _
  | some token =>
    exact (resolve scope token).bind fun column => rejectIf (column.source = .expedition) _ <|
      (bindValue _ _).bind fun _ => (bindValue _ _).bind fun _ => pure _

theorem hasKeys (g : KeyGroup) : Alike (Drafting.hasKeys g) (Drafting.hasKeys g) := by
  unfold Drafting.hasKeys
  split
  · exact (bindValue _ _).bind fun _ => pure _
  · exact (bindAll rfl).bind fun _ => pure _

theorem present (scope : Scope) (tokens : List String) :
    Alike (Drafting.present scope tokens) (Drafting.present scope tokens) := by
  refine rejectIf tokens.isEmpty _ <| (mapM (resolve scope) tokens).bind fun columns =>
    -- the groups of keys come from the columns, and columns are resolved alike
    (mapM hasKeys (keyGroups columns)).bind fun conditions => ?_
  cases conditions <;> exact pure _

theorem isAmong (column : Sql.ExpeditionColumn) {values values' : List String}
    (h : values.length = values'.length) :
    Alike (Drafting.isAmong column values) (Drafting.isAmong column values') := by
  refine (modifyJoins (·.requireExpeditions)).bind fun _ => (bindAll h).bind fun numbers => ?_
  -- the numbers are the same list, so the test has the same form
  split <;> exact pure _

theorem selectEntities (scope : Scope) (names : List String) :
    Alike (names.forM (Drafting.selectEntity scope)) (names.forM (Drafting.selectEntity scope)) :=
  forM (selectEntity scope) names

/-- The conditions of expressions that differ in their literals only are the same: they hold the
numbers of the values and not the values. -/
theorem condition (scope : Scope) {e e' : Expression} (h : e.Alike e') :
    Alike (Drafting.condition scope e) (Drafting.condition scope e') := by
  -- on the shape that both expressions have
  induction h with
  | comparison token operator term term' =>
    exact (resolve scope token).bind fun column =>
      (compare column operator term term').bind fun _ => pure _
  | @range token spec spec' r r' hr hr' h =>
    rw [Drafting.condition, Drafting.condition, hr, hr']
    exact (resolve scope token).bind fun column => (within column h).bind fun _ => pure _
  | like token term term' =>
    exact (resolve scope token).bind fun column => (bindValue term term').bind fun _ => pure _
  | search column h h' => exact (search scope column h h').bind fun _ => pure _
  | present tokens => exact (present scope tokens).bind fun _ => pure _
  | not h ih =>
    refine ih.bind fun c => ?_
    cases c with
    | none => exact reject _
    | some c => exact pure _
  | logical connective _ _ ihl ihr => exact ihl.bind fun _ => ihr.bind fun _ => pure _
  | group _ ih => exact ih.bind fun _ => pure _
  | @expedition codes codes' h =>
    rw [Drafting.condition, Drafting.condition, isEmpty_eq_of_length_eq h]
    exact rejectIf codes'.isEmpty _ <| (isAmong .code h).bind fun _ => pure _
  | @project ids ids' h =>
    have htexts : (ids.map fun id => toString id.toInt).length =
        (ids'.map fun id => toString id.toInt).length := by
      rw [List.length_map, List.length_map, h]
    rw [Drafting.condition, Drafting.condition, isEmpty_eq_of_length_eq h]
    exact rejectIf ids'.isEmpty _ <| (isAmong .projectId htexts).bind fun _ => pure _
  | select entities => exact (selectEntities scope entities).bind fun _ => pure _
  | selectWith entities _ ih => exact (selectEntities scope entities).bind fun _ => ih
  | all =>
    have hall : Alike requireAll requireAll :=
      modify fun _ _ hd => ⟨hd.size, hd.joins, hd.condition, rfl⟩
    exact hall.bind fun _ => pure _
  | empty => exact reject _

theorem visit (scope : Scope) {e e' : Expression} (h : e.Alike e') :
    Alike (Drafting.visit scope e) (Drafting.visit scope e') :=
  (condition scope h).bind fun c => modify fun _ _ hd =>
    ⟨hd.size, hd.joins, congrArg (combine .and · c) hd.condition, hd.all⟩

end Alike

end Drafting

/-! ## §4 Statements -/

/-- A statement and the keys of its values, without the values. -/
def Sql.Prepared.template (p : Sql.Prepared) : String × List String :=
  (p.text, p.params.entries.map (·.1))

/-- Drafts are assembled without their values. -/
theorem Draft.Alike.query_eq {d d' : Draft} (h : d.Alike d') (scope : Scope) (network : Nat)
    (publicOnly : Bool) (p : Pagination) :
    d.query scope network publicOnly p = d'.query scope network publicOnly p := by
  -- neither the condition nor the joins hold a value
  have hcondition : d.finalCondition = d'.finalCondition := by
    rw [Draft.finalCondition, Draft.finalCondition, h.condition, h.all]
  have hjoins : d.finalJoins = d'.finalJoins := by
    rw [Draft.finalJoins, Draft.finalJoins, h.joins]
  rw [Draft.query, Draft.query, hcondition, hjoins]

theorem Draft.Alike.map_template_prepare {d d' : Draft} (h : d.Alike d') (scope : Scope)
    (network : Nat) (publicOnly : Bool) (p : Pagination) :
    (d.prepare scope network publicOnly p).map Sql.Prepared.template =
      (d'.prepare scope network publicOnly p).map Sql.Prepared.template := by
  have hkeys : d.params.entries.map (·.1) = d'.params.entries.map (·.1) := by
    rw [Sql.Params.keys_entries, Sql.Params.keys_entries]
    exact congrArg (fun n => (List.range' 1 n).map toString) h.size
  rw [Draft.prepare, Draft.prepare, h.query_eq]
  cases d'.query scope network publicOnly p with
  | error e => rfl
  | ok q => exact congrArg (fun keys => Except.ok (q.text, keys)) hkeys

theorem Scope.map_template_compile (scope : Scope) (network : Nat) (publicOnly : Bool)
    (p : Pagination) {e e' : Expression} (h : e.Alike e') :
    (scope.compile network publicOnly p e).map Sql.Prepared.template =
      (scope.compile network publicOnly p e').map Sql.Prepared.template := by
  obtain ⟨houtcome, hdrafts⟩ :=
    Drafting.Alike.visit scope h scope.emptyDraft scope.emptyDraft ⟨rfl, rfl, rfl, rfl⟩
  unfold Drafting.outcome at houtcome hdrafts
  unfold Scope.compile Draft.visit
  generalize (Drafting.visit scope e).run.run scope.emptyDraft = r at *
  generalize (Drafting.visit scope e').run.run scope.emptyDraft = r' at *
  obtain ⟨a, d⟩ := r
  obtain ⟨a', d'⟩ := r'
  obtain rfl : a = a' := houtcome
  -- both visits have failed with this error, or both have succeeded
  cases a with
  | ok => exact hdrafts.map_template_prepare scope network publicOnly p
  | error error => rfl

/-- Expressions that differ in their literals only have the same outcome: the same error, or
statements with the same text and the same keys, which differ in the values at most. -/
theorem Schema.compile_independent_of_literals (s : Schema) (root : String) (o : CompileOptions)
    {e e' : Expression} (h : e.Alike e') :
    (s.compile root e o).map Sql.Prepared.template =
      (s.compile root e' o).map Sql.Prepared.template := by
  unfold compile
  cases o.effectiveLimit with
  | error error => rfl
  | ok limit =>
    cases s.scope o.policy root with
    | error error => rfl
    | ok scope => exact scope.map_template_compile o.network o.publicOnly ⟨o.page, limit⟩ h

/-- The same query with literals that look like SQL. -/
def Expression.hostileFieldwork : Expression :=
  .logical .and (.range "year" "['; TO *]")
    (.not (.group (.logical .or (.like "genus" ":1") (.comparison "genus" .eq "' OR ''='"))))

theorem Schema.compile_independent_of_literals_fieldwork :
    ∃ p p', Schema.fieldwork.compile "Event" .fieldwork {} = .ok p ∧
      Schema.fieldwork.compile "Event" .hostileFieldwork {} = .ok p' ∧ p.text = p'.text ∧
      p.params.values = ["2000", "Conus%", "Cypraea"] ∧
      p'.params.values = ["';", ":1", "' OR ''='"] := by
  obtain ⟨p, hp, hvalues⟩ : ∃ p, Schema.fieldwork.compile "Event" .fieldwork {} = .ok p ∧
      p.params.values = ["2000", "Conus%", "Cypraea"] := ⟨_, rfl, rfl⟩
  obtain ⟨p', hp', hvalues'⟩ : ∃ p, Schema.fieldwork.compile "Event" .hostileFieldwork {} = .ok p ∧
      p.params.values = ["';", ":1", "' OR ''='"] := ⟨_, rfl, rfl⟩
  have hyear : Range.parse? "[2000 TO *]" = some (.above ⟨false, "2000"⟩) := rfl
  have hyear' : Range.parse? "['; TO *]" = some (.above ⟨false, "';"⟩) := rfl
  have halike : Expression.Alike .fieldwork .hostileFieldwork :=
    .logical .and (.range "year" hyear hyear' fun _ => Iff.rfl)
      (.not (.group (.logical .or (.like ..) (.comparison ..))))
  have htemplate := compile_independent_of_literals .fieldwork "Event" {} halike
  rw [hp, hp'] at htemplate
  exact ⟨p, p', hp, hp', congrArg Prod.fst (Except.ok.inj htemplate), hvalues, hvalues'⟩

end EntityQuery
