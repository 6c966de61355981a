import EntityQuery.Proofs.Meaning
import EntityQuery.Proofs.SchemaNames

/-!
# Steps of a visit

What the steps of a visit do to a draft when they succeed: one lemma for each step says all of it,
and a step made of others is taken apart by `steps_bind`.
-/

namespace EntityQuery

/-! ## §1 Numbers and values -/

namespace Sql.Params

/-- The value with a number. -/
def valueOf (p : Params) (number : Nat) : String :=
  p.values.getD (number - 1) ""

/-- The numbers that values get are theirs for good. -/
theorem map_valueOf_of_prefix {p : Params} {before values : List String}
    (h : before ++ values <+: p.values) :
    (List.range' (before.length + 1) values.length).map p.valueOf = values := by
  obtain ⟨after, hp⟩ := h
  -- the value at each place is the one that was bound there, whatever was bound later
  apply List.ext_getElem (by simp)
  intro i hi _
  rw [List.length_map, List.length_range'] at hi
  have hget : (before ++ values ++ after)[before.length + i]? = some values[i] := by
    rw [List.append_assoc, List.getElem?_append_right (by omega), Nat.add_sub_cancel_left,
      List.getElem?_append_left hi, List.getElem?_eq_getElem hi]
  have hindex : before.length + 1 + i - 1 = before.length + i := by omega
  simp only [List.getElem_map, List.getElem_range', Nat.one_mul, valueOf, List.getD, ← hp, hindex]
  rw [hget, Option.getD_some]

/-- The keys of bound values are their numbers, counted from one. -/
theorem keys_entries (p : Params) :
    p.entries.map (·.1) = (List.range' 1 p.values.length).map toString := by
  rw [entries, List.map_map, ← List.zipIdx_map_snd, List.map_map]
  rfl

theorem values_entries (p : Params) : p.entries.map (·.2) = p.values := by
  rw [entries, List.map_map]
  exact List.zipIdx_map_fst 1 p.values

end Sql.Params

/-- The draft with more values bound. -/
def Draft.withValues (d : Draft) (values : List String) : Draft :=
  { d with params := d.params.append values }

/-- The draft with other tables asked for. -/
def Draft.withJoins (d : Draft) (joins : JoinRequest) : Draft :=
  { d with joins }

@[simp] theorem Draft.withValues_nil (d : Draft) : d.withValues [] = d := by
  simp [withValues, Sql.Params.append]

@[simp] theorem Draft.withValues_withValues (d : Draft) (values more : List String) :
    (d.withValues values).withValues more = d.withValues (values ++ more) := by
  simp [withValues, Sql.Params.append]

@[simp] theorem Draft.next_withValues (d : Draft) (values : List String) :
    (d.withValues values).params.next = d.params.next + values.length := by
  simp only [withValues, Sql.Params.append, Sql.Params.next, Sql.Params.size, List.length_append]
  omega

@[simp] theorem Draft.next_withJoins (d : Draft) (joins : JoinRequest) :
    (d.withJoins joins).params.next = d.params.next := by
  rfl

@[simp] theorem Draft.values_withValues (d : Draft) (values : List String) :
    (d.withValues values).params.values = d.params.values ++ values := by
  rfl

namespace Drafting

variable {α β : Type}

/-! ## §2 Steps and their outcomes -/

/-- The outcome of a step on a draft, and the draft as the step leaves it. -/
def outcome (x : Drafting α) (d : Draft) : Except QueryError α × Draft :=
  x.run.run d

theorem outcome_pure (a : α) (d : Draft) : outcome (pure a) d = (.ok a, d) :=
  rfl

theorem outcome_bind (x : Drafting α) (f : α → Drafting β) (d : Draft) :
    outcome (x >>= f) d =
      match outcome x d with
      | (.ok a, d') => outcome (f a) d'
      | (.error e, d') => (.error e, d') := by
  -- what is left is the result of the first step, with which both go on or not
  simp only [outcome, ExceptT.run_bind, StateT.run_bind]
  generalize x.run.run d = r
  obtain ⟨a | e, d'⟩ := r <;> rfl

theorem outcome_reject (reason : InvalidReason) (d : Draft) :
    outcome (reject reason : Drafting α) d = (.error (.invalid reason), d) :=
  rfl

theorem outcome_modify (f : Draft → Draft) (d : Draft) :
    outcome (modify f) d = (.ok (), f d) :=
  rfl

/-! ## §3 Successful steps -/

/-- A step succeeds on a draft with a result and leaves another draft. -/
def Steps (x : Drafting α) (d : Draft) (a : α) (d' : Draft) : Prop :=
  outcome x d = (.ok a, d')

@[simp] theorem steps_pure {a b : α} {d d' : Draft} :
    Steps (pure a) d b d' ↔ a = b ∧ d = d' := by
  simp [Steps, outcome_pure]

@[simp] theorem steps_bind {x : Drafting α} {f : α → Drafting β} {d d' : Draft} {b : β} :
    Steps (x >>= f) d b d' ↔ ∃ a d₁, Steps x d a d₁ ∧ Steps (f a) d₁ b d' := by
  simp only [Steps, outcome_bind]
  -- after an error nothing else is done
  obtain ⟨e | a, d₁⟩ := outcome x d
  · simp
  · constructor
    · exact fun h => ⟨a, d₁, rfl, h⟩
    · rintro ⟨a', d₂, heq, h⟩
      cases heq
      exact h

@[simp] theorem not_steps_reject {reason : InvalidReason} {d d' : Draft} {a : α} :
    ¬ Steps (reject reason) d a d' := by
  simp [Steps, outcome_reject]

@[simp] theorem not_steps_throw {e : QueryError} {d d' : Draft} {a : α} :
    ¬ Steps (throw e) d a d' := by
  intro h
  cases h

@[simp] theorem steps_modify {f : Draft → Draft} {d d' : Draft} {a : Unit} :
    Steps (modify f) d a d' ↔ f d = d' := by
  simp [Steps, outcome_modify]

@[simp] theorem steps_except {r : Except QueryError α} {d d' : Draft} {a : α} :
    Steps (liftM r) d a d' ↔ r = .ok a ∧ d = d' := by
  have hrun : outcome (liftM r : Drafting α) d = (r, d) := rfl
  simp [Steps, hrun]

@[simp] theorem steps_bindValue {value : String} {d d' : Draft} {number : Nat} :
    Steps (bind value) d number d' ↔ d.params.next = number ∧ d.withValues [value] = d' := by
  have hrun : outcome (bind value) d = (.ok d.params.next, d.withValues [value]) := rfl
  simp [Steps, hrun]

@[simp] theorem steps_bindAll {values : List String} {d d' : Draft} {numbers : List Nat} :
    Steps (bindAll values) d numbers d' ↔
      d.params.numbersFor values = numbers ∧ d.withValues values = d' := by
  have hrun : outcome (bindAll values) d =
      (.ok (d.params.numbersFor values), d.withValues values) := rfl
  simp [Steps, hrun]

/-! ## §4 Attempts -/

/-- The result of a step on a draft and the draft that it leaves, or the error that it stops at. -/
def attempt (x : Drafting α) (d : Draft) : Except QueryError (α × Draft) :=
  match outcome x d with
  | (.ok a, d') => .ok (a, d')
  | (.error e, _) => .error e

theorem attempt_eq_ok {x : Drafting α} {d d' : Draft} {a : α} :
    attempt x d = .ok (a, d') ↔ Steps x d a d' := by
  unfold attempt Steps
  obtain ⟨e | a', d₁⟩ := outcome x d <;> simp

theorem attempt_bind (x : Drafting α) (f : α → Drafting β) (d : Draft) :
    attempt (x >>= f) d = attempt x d >>= fun r => attempt (f r.1) r.2 := by
  unfold attempt
  rw [outcome_bind]
  obtain ⟨e | a, d₁⟩ := outcome x d <;> rfl

theorem attempt_liftM (r : Except QueryError α) (d : Draft) :
    attempt (liftM r) d = r.map (·, d) := by
  cases r <;> rfl

end Drafting

/-! ## §5 Tables asked for -/

/-- A request to which tests have added entities of the schema and the expeditions. -/
inductive JoinRequest.Requires (s : Schema) : JoinRequest → JoinRequest → Prop
  | refl (r : JoinRequest) : Requires s r r
  | entity {r r' : JoinRequest} {e : Entity} (h : Requires s r r') (he : e ∈ s.entities) :
      Requires s r (r'.require e.name)
  | expeditions {r r' : JoinRequest} (h : Requires s r r') : Requires s r r'.requireExpeditions

theorem JoinRequest.Requires.trans {s : Schema} {r r' r'' : JoinRequest} (h : Requires s r r')
    (h' : Requires s r' r'') : Requires s r r'' := by
  -- on the second of the two, as requests grow at its end
  induction h' with
  | refl => exact h
  | entity _ he ih => exact .entity ih he
  | expeditions _ ih => exact .expeditions ih

theorem JoinRequest.Requires.selected_eq {s : Schema} {r r' : JoinRequest}
    (h : Requires s r r') : r'.selected = r.selected := by
  induction h with
  | refl => rfl
  -- an entity that is required is not shown for that
  | @entity r' e h he ih =>
    rw [← ih, JoinRequest.require]
    split <;> rfl
  | expeditions _ ih => exact ih

/-- Ask for the table that a column is read from. -/
def JoinRequest.requireSource (r : JoinRequest) : ColumnSource → JoinRequest
  | .entity owner => r.require owner.name
  | .expedition => r.requireExpeditions

namespace Drafting

theorem Steps.of_requireSource {s : Schema} {source : ColumnSource} {d d' : Draft} {a : Unit}
    (h : Steps (requireSource source) d a d') (hs : ∀ e, source = .entity e → e ∈ s.entities) :
    ∃ joins, d.joins.Requires s joins ∧ d' = d.withJoins joins := by
  -- one table is asked for, and which one depends on the source alone
  cases source with
  | entity owner =>
    simp only [requireSource, require, steps_modify] at h
    exact ⟨_, .entity (.refl _) (hs owner rfl), h.symm⟩
  | expedition =>
    simp only [requireSource, requireExpeditions, steps_modify] at h
    exact ⟨_, .expeditions (.refl _), h.symm⟩

/-- A column that is found is the one that the token stands for. -/
theorem Steps.of_resolve {scope : Scope} {token : String} {d d' : Draft} {c : Column}
    (h : Steps (resolve scope token) d c d') :
    scope.column? token = some c ∧
      ∃ joins, d.joins.Requires scope.schema joins ∧ d' = d.withJoins joins := by
  simp only [resolve, steps_bind, steps_pure, steps_except] at h
  obtain ⟨c', d₁, ⟨hresolve, rfl⟩, _, d₂, hsource, rfl, rfl⟩ := h
  refine ⟨by simp [Scope.column?, hresolve, Except.toOption], ?_⟩
  exact hsource.of_requireSource fun owner hc => Schema.owner_mem_of_resolve hresolve hc

/-- A token that stands for a column is found on any draft, and only the table of the column is
asked for. -/
theorem steps_resolve_of_ok {scope : Scope} {token : String} {c : Column}
    (h : scope.schema.resolve scope.policy scope.root token = .ok c) (d : Draft) :
    Steps (resolve scope token) d c (d.withJoins (d.joins.requireSource c.source)) := by
  simp only [resolve, steps_bind, steps_except, steps_pure]
  refine ⟨c, d, ⟨h, rfl⟩, (), _, ?_, rfl, rfl⟩
  cases c.source <;> exact steps_modify.mpr rfl

theorem Steps.of_mapM_resolve {scope : Scope} {tokens : List String} {d d' : Draft}
    {columns : List Column} (h : Steps (tokens.mapM (resolve scope)) d columns d') :
    tokens.filterMap scope.column? = columns ∧
      ∃ joins, d.joins.Requires scope.schema joins ∧ d' = d.withJoins joins := by
  -- each column adds its table to what those before it have asked for
  induction tokens generalizing d columns with
  | nil =>
    simp only [List.mapM_nil, steps_pure] at h
    exact ⟨h.1, d.joins, .refl _, h.2.symm⟩
  | cons token tokens ih =>
    simp only [List.mapM_cons, steps_bind, steps_pure] at h
    obtain ⟨c, d₁, hc, cs, d₂, hcs, rfl, rfl⟩ := h
    obtain ⟨hcolumn, joins, hrequires, rfl⟩ := hc.of_resolve
    obtain ⟨hcolumns, joins', hrequires', rfl⟩ := ih hcs
    exact ⟨by simp [hcolumn, hcolumns], joins', hrequires.trans hrequires', rfl⟩

/-- Entities that are selected are entities of the schema. -/
theorem Steps.of_selectEntities {scope : Scope} {names : List String} {d d' : Draft}
    {a : Unit} (h : Steps (names.forM (selectEntity scope)) d a d') :
    scope.schema.Declares names ∧
      d' = d.withJoins (names.foldl JoinRequest.select d.joins) := by
  induction names generalizing d with
  | nil =>
    simp only [List.forM, steps_pure] at h
    exact ⟨fun name hname => absurd hname List.not_mem_nil, h.2.symm⟩
  | cons name names ih =>
    simp only [List.forM, steps_bind] at h
    obtain ⟨_, d₁, hname, hnames⟩ := h
    obtain ⟨hmem, rfl⟩ := ih hnames
    unfold selectEntity at hname
    split at hname
    · rename_i e he
      obtain ⟨hentity, rfl⟩ := Schema.mem_entities_of_entity? he
      simp only [select, steps_modify] at hname
      subst hname
      refine ⟨?_, rfl⟩
      intro name hname
      rcases List.mem_cons.mp hname with rfl | hname
      · exact ⟨e, hentity, rfl⟩
      · exact hmem name hname
    · exact absurd hname not_steps_throw

end Drafting

end EntityQuery
