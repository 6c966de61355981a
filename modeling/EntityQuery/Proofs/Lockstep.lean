import EntityQuery.Proofs.Coverage

/-!
# Visits in lockstep

A visit adds to a draft and never looks at what others have added. So one expression, visited on two
drafts, does the same to both: it fails with the same error or finds the same condition, but for the
numbers in it, which start at different places. Whatever relation between the drafts single steps
keep is kept by the whole visit, be it successful or not.

There are two uses. On top of any draft, a visit leaves what it leaves by itself, added to the draft
(`Draft.OnTop`). And what all requests for entities of a schema have in common, they still have
after a visit that failed (`JoinRequest.Kept.outcome_condition`).
-/

namespace EntityQuery

open Sql (Condition Test)

/-! ## §1 Moved numbers -/

/-- A condition with its numbers replaced. -/
def Sql.Condition.renumber (f : Nat → Nat) : Condition → Condition
  | .test t => .test (t.map f)
  | .not c => .not (c.renumber f)
  | .and left right => .and (left.renumber f) (right.renumber f)
  | .or left right => .or (left.renumber f) (right.renumber f)
  | .group c => .group (c.renumber f)

theorem Sql.Condition.renumber_foldl_and (f : Nat → Nat) (first : Condition)
    (others : List Condition) :
    (others.foldl .and first).renumber f =
      (others.map (renumber f)).foldl .and (first.renumber f) := by
  induction others generalizing first with
  | nil => rfl
  | cons c others ih => exact ih (.and first c)

theorem Sql.Condition.renumber_allOf (f : Nat → Nat) (first : Condition)
    (others : List Condition) :
    (allOf first others).renumber f = allOf (first.renumber f) (others.map (renumber f)) := by
  cases others with
  | nil => rfl
  | cons c others => exact congrArg group (renumber_foldl_and f first (c :: others))

@[simp] theorem Sql.Test.map_id {α : Type} (t : Test α) : t.map id = t := by
  cases t <;> simp [map]

@[simp] theorem Sql.Condition.renumber_id (c : Condition) : c.renumber id = c := by
  induction c <;> simp_all [renumber]

/-- A condition whose numbers are greater by some amount. -/
abbrev Drafting.moved (offset : Nat) : Condition → Condition :=
  .renumber (offset + ·)

theorem Drafting.moved_zero : moved 0 = id := by
  funext c
  have hzero : (fun number => 0 + number) = id := funext Nat.zero_add
  rw [moved, hzero, Condition.renumber_id, id]

theorem Drafting.map_moved_zero : Option.map (moved 0) = id := by
  rw [moved_zero, Option.map_id]

theorem Drafting.map_renumber_combine (f : Nat → Nat) (connective : Connective)
    (left right : Option Condition) :
    (combine connective left right).map (Condition.renumber f) =
      combine connective (left.map (.renumber f)) (right.map (.renumber f)) := by
  cases connective <;> cases left <;> cases right <;> rfl

/-! ## §2 Steps in lockstep -/

/-- A relation between drafts that is kept when the same is added to both. The second one has given
away more numbers by a fixed amount. -/
structure Lockstep (s : Schema) (offset : Nat) (R : Draft → Draft → Prop) : Prop where
  next_eq : ∀ {d d' : Draft}, R d d' → d'.params.next = offset + d.params.next
  withValues : ∀ {d d' : Draft} (values : List String), R d d' →
    R (d.withValues values) (d'.withValues values)
  require : ∀ {d d' : Draft} {e : Entity}, e ∈ s.entities → R d d' →
    R (d.withJoins (d.joins.require e.name)) (d'.withJoins (d'.joins.require e.name))
  select : ∀ {d d' : Draft} {e : Entity}, e ∈ s.entities → R d d' →
    R (d.withJoins (d.joins.select e.name)) (d'.withJoins (d'.joins.select e.name))
  requireExpeditions : ∀ {d d' : Draft}, R d d' →
    R (d.withJoins d.joins.requireExpeditions) (d'.withJoins d'.joins.requireExpeditions)
  requireAll : ∀ {d d' : Draft}, R d d' → R { d with all := true } { d' with all := true }

namespace Drafting

variable {α β γ δ : Type} {R : Draft → Draft → Prop}

/-- Two steps keep a relation between drafts; the result of the second one is that of the first
carried over by a function. -/
def Follows (R : Draft → Draft → Prop) (f : α → β) (x : Drafting α) (x' : Drafting β) : Prop :=
  ∀ d d' : Draft, R d d' →
    (outcome x' d').1 = (outcome x d).1.map f ∧ R (outcome x d).2 (outcome x' d').2

namespace Follows

section Combinators

variable {f : α → β} {g : γ → δ}

theorem pure (f : α → β) (a : α) : Follows R f (pure a) (pure (f a)) :=
  fun _ _ hd => ⟨rfl, hd⟩

theorem pure_of_eq {a : α} {b : β} (h : b = f a) : Follows R f (Pure.pure a) (Pure.pure b) :=
  h ▸ pure f a

theorem reject (f : α → β) (reason : InvalidReason) :
    Follows R f (reject reason) (reject reason) :=
  fun _ _ hd => ⟨rfl, hd⟩

theorem throw (f : α → β) (e : QueryError) : Follows R f (throw e) (throw e) :=
  fun _ _ hd => ⟨rfl, hd⟩

/-- Both steps succeed, or both fail with one error. -/
theorem outcome_cases {x : Drafting α} {x' : Drafting β} (h : Follows R f x x') {d d' : Draft}
    (hd : R d d') :
    (∃ a d₁ d₁', outcome x d = (.ok a, d₁) ∧ outcome x' d' = (.ok (f a), d₁') ∧ R d₁ d₁') ∨
      ∃ e d₁ d₁', outcome x d = (.error e, d₁) ∧ outcome x' d' = (.error e, d₁') ∧ R d₁ d₁' := by
  obtain ⟨heq, hd₁⟩ := h d d' hd
  cases hx : outcome x d with
  | mk r d₁ =>
    cases hx' : outcome x' d' with
    | mk r' d₁' =>
      rw [hx, hx'] at heq hd₁
      obtain rfl : r' = r.map f := heq
      cases r with
      | ok a => exact .inl ⟨a, d₁, d₁', rfl, rfl, hd₁⟩
      | error e => exact .inr ⟨e, d₁, d₁', rfl, rfl, hd₁⟩

/-- What follows a step sees its result carried over. -/
theorem bind {x : Drafting α} {x' : Drafting β} {y : α → Drafting γ} {y' : β → Drafting δ}
    (hx : Follows R f x x') (hy : ∀ a, Follows R g (y a) (y' (f a))) :
    Follows R g (x >>= y) (x' >>= y') := by
  intro d d' hd
  -- an error ends both of them before what follows is reached
  rw [outcome_bind, outcome_bind]
  rcases hx.outcome_cases hd with ⟨a, d₁, d₁', hok, hok', hd₁⟩ | ⟨e, d₁, d₁', herror, herror', hd₁⟩
  · rw [hok, hok']
    exact hy a _ _ hd₁
  · rw [herror, herror']
    exact ⟨rfl, hd₁⟩

theorem mapM {x : γ → Drafting α} {x' : γ → Drafting β} (h : ∀ c, Follows R f (x c) (x' c))
    (cs : List γ) : Follows R (List.map f) (cs.mapM x) (cs.mapM x') := by
  induction cs with
  | nil => exact pure (List.map f) []
  | cons c cs ih =>
    rw [List.mapM_cons, List.mapM_cons]
    exact (h c).bind fun a => ih.bind fun as => pure (List.map f) (a :: as)

theorem forM {x x' : γ → Drafting Unit} (h : ∀ c, Follows R id (x c) (x' c)) (cs : List γ) :
    Follows R id (cs.forM x) (cs.forM x') := by
  induction cs with
  | nil => exact pure id ()
  | cons c cs ih => exact (h c).bind fun _ => ih

theorem modify {change change' : Draft → Draft} (h : ∀ d d', R d d' → R (change d) (change' d')) :
    Follows R id (modify change) (modify change') :=
  fun d d' hd => ⟨rfl, h d d' hd⟩

theorem rejectIf (c : Prop) [Decidable c] (reason : InvalidReason) {x : Drafting α}
    {x' : Drafting β} (h : Follows R f x x') :
    Follows R f (if c then Drafting.reject reason >>= fun (_ : Unit) => x else x)
      (if c then Drafting.reject reason >>= fun (_ : Unit) => x' else x') := by
  -- both steps reject, or both go on
  split
  · exact (reject id reason).bind fun _ => h
  · exact h

end Combinators

/-! ## §3 Values and tables -/

variable {s : Schema} {scope : Scope} {offset : Nat}

theorem bindValue (hR : Lockstep s offset R) (value : String) :
    Follows R (offset + ·) (Drafting.bind value) (Drafting.bind value) :=
  fun _ _ hd => ⟨congrArg Except.ok (hR.next_eq hd), hR.withValues [value] hd⟩

theorem bindAll (hR : Lockstep s offset R) (values : List String) :
    Follows R (List.map (offset + ·)) (Drafting.bindAll values) (Drafting.bindAll values) := by
  -- the numbers of the one are those of the other counted from further on
  intro d d' hd
  refine ⟨?_, hR.withValues values hd⟩
  show Except.ok (d'.params.numbersFor values) =
    Except.ok ((d.params.numbersFor values).map (offset + ·))
  rw [Sql.Params.numbersFor, Sql.Params.numbersFor, hR.next_eq hd]
  exact congrArg Except.ok (List.map_add_range' ..).symm

theorem resolve (hR : Lockstep scope.schema offset R) (token : String) :
    Follows R id (Drafting.resolve scope token) (Drafting.resolve scope token) := by
  unfold Drafting.resolve
  cases hresolve : scope.schema.resolve scope.policy scope.root token with
  | error e => exact throw id e
  | ok column =>
    have hsource : Follows R id (requireSource column.source) (requireSource column.source) := by
      cases hcolumn : column.source with
      | entity owner =>
        -- the owner is an entity of the schema, and only of those the relation is known to be kept
        have howner := Schema.owner_mem_of_resolve hresolve hcolumn
        exact modify fun _ _ hd => hR.require howner hd
      | expedition => exact modify fun _ _ hd => hR.requireExpeditions hd
    exact hsource.bind fun _ => pure id column

theorem selectEntity (hR : Lockstep scope.schema offset R) (name : String) :
    Follows R id (Drafting.selectEntity scope name) (Drafting.selectEntity scope name) := by
  unfold Drafting.selectEntity
  split
  · rename_i e he
    exact modify fun _ _ hd => hR.select (Schema.mem_entities_of_entity? he).1 hd
  · exact throw id _

/-! ## §4 Nodes -/

theorem compare (hR : Lockstep s offset R) (column : Column) (operator : ComparisonOperator)
    (value : String) :
    Follows R (moved offset) (Drafting.compare column operator value)
      (Drafting.compare column operator value) :=
  (bindValue hR value).bind fun _ => pure (moved offset) _

theorem within (hR : Lockstep s offset R) (column : Column) (range : Range) :
    Follows R (moved offset) (Drafting.within column range) (Drafting.within column range) := by
  cases range with
  | above lower => exact compare hR _ _ _
  | below upper => exact compare hR _ _ _
  | between lower upper =>
    -- two bounds are bound in their order, as they are without the relation
    exact (compare hR _ _ _).bind fun _ => (compare hR _ _ _).bind fun _ => pure (moved offset) _

theorem search (hR : Lockstep scope.schema offset R) (column : Option String) (term : String) :
    Follows R (moved offset) (Drafting.search scope column term)
      (Drafting.search scope column term) := by
  unfold Drafting.search
  cases searchText? term with
  | none => exact reject _ _
  | some text =>
    cases column with
    | none => exact (bindValue hR text).bind fun _ => pure (moved offset) _
    | some token =>
      exact (resolve hR token).bind fun column => rejectIf (column.source = .expedition) _ <|
        (bindValue hR text).bind fun _ => (bindValue hR text).bind fun _ => pure (moved offset) _

theorem hasKeys (hR : Lockstep s offset R) (g : KeyGroup) :
    Follows R (moved offset) (Drafting.hasKeys g) (Drafting.hasKeys g) := by
  unfold Drafting.hasKeys
  split
  · exact (bindValue hR _).bind fun _ => pure (moved offset) _
  · exact (bindAll hR _).bind fun _ => pure (moved offset) _

theorem present (hR : Lockstep scope.schema offset R) (tokens : List String) :
    Follows R (moved offset) (Drafting.present scope tokens) (Drafting.present scope tokens) := by
  -- the columns are the same on both sides, and so are the groups of their keys
  refine rejectIf tokens.isEmpty _ <| (mapM (resolve hR) tokens).bind fun columns => ?_
  rw [List.map_id]
  refine (mapM (hasKeys hR) (keyGroups columns)).bind fun conditions => ?_
  cases conditions with
  | nil => exact pure (moved offset) _
  | cons first others => exact pure_of_eq (Condition.renumber_allOf _ first others).symm

theorem isAmong (hR : Lockstep s offset R) (column : Sql.ExpeditionColumn)
    (values : List String) :
    Follows R (moved offset) (Drafting.isAmong column values)
      (Drafting.isAmong column values) := by
  have hexpeditions : Follows R id Drafting.requireExpeditions Drafting.requireExpeditions :=
    modify fun _ _ hd => hR.requireExpeditions hd
  refine hexpeditions.bind fun _ => (bindAll hR values).bind fun numbers => ?_
  -- a single number stays a single number
  match numbers with
  | [] | [number] | first :: second :: others => exact pure (moved offset) _

/-- Visits of one expression in lockstep find the same condition, with its numbers moved. -/
theorem condition (hR : Lockstep scope.schema offset R) (e : Expression) :
    Follows R (Option.map (moved offset)) (Drafting.condition scope e)
      (Drafting.condition scope e) := by
  have hselect := fun names => forM (selectEntity hR) names
  -- on the expression, whose operands are visited one after the other
  induction e with
  | comparison token operator term =>
    exact (resolve hR token).bind fun column =>
      (compare hR column operator term).bind fun _ => pure _ _
  | range token spec =>
    rw [Drafting.condition]
    refine (resolve hR token).bind fun column => ?_
    cases Range.parse? spec with
    | none => exact reject _ _
    | some range => exact (within hR column range).bind fun _ => pure _ _
  | like token term =>
    exact (resolve hR token).bind fun column => (bindValue hR term).bind fun _ => pure _ _
  | search column term => exact (search hR column term).bind fun _ => pure _ _
  | present tokens => exact (present hR tokens).bind fun _ => pure _ _
  | not inner ih =>
    refine ih.bind fun c => ?_
    -- a condition that is negated is found by both or by neither
    cases c with
    | none => exact reject _ _
    | some c => exact pure _ _
  | logical connective left right ihl ihr =>
    refine ihl.bind fun first => ihr.bind fun second => ?_
    exact pure_of_eq (map_renumber_combine _ connective first second).symm
  | group inner ih =>
    refine ih.bind fun c => ?_
    cases c <;> exact pure _ _
  | expedition codes =>
    exact rejectIf codes.isEmpty _ <| (isAmong hR .code codes).bind fun _ => pure _ _
  | project ids =>
    exact rejectIf ids.isEmpty _ <| (isAmong hR .projectId _).bind fun _ => pure _ _
  | select entities => exact (hselect entities).bind fun _ => pure _ none
  | selectWith entities inner ih => exact (hselect entities).bind fun _ => ih
  | all =>
    have hall : Follows R id requireAll requireAll := modify fun _ _ hd => hR.requireAll hd
    exact hall.bind fun _ => pure _ none
  | empty => exact reject _ _

end Follows

end Drafting

/-! ## §5 On top of a draft -/

/-- One draft holds what another one and a base hold together; its condition is still that of the
base. Whether the expeditions were asked for is left open, since they are always read in the
end. -/
structure Draft.OnTop (base d d' : Draft) : Prop where
  values : d'.params.values = base.params.values ++ d.params.values
  root : d.joins.root = base.joins.root
  root_eq : d'.joins.root = base.joins.root
  required : ∀ name, name ∈ d'.joins.required ↔
    name ∈ base.joins.required ∨ name ∈ d.joins.required
  selected : ∀ name, name ∈ d'.joins.selected ↔
    name ∈ base.joins.selected ∨ name ∈ d.joins.selected
  condition : d'.condition = base.condition
  all : d'.all = (base.all || d.all)

namespace Draft.OnTop

variable {base d d' : Draft}

/-- Each draft stands on top of itself with nothing in addition. -/
theorem emptyDraft {scope : Scope} (h : base.joins.root = scope.root) :
    base.OnTop scope.emptyDraft base where
  values := by simp [Scope.emptyDraft]
  root := h.symm
  root_eq := rfl
  required := by simp [Scope.emptyDraft]
  selected := by simp [Scope.emptyDraft]
  condition := rfl
  all := by simp [Scope.emptyDraft]

theorem require (h : base.OnTop d d') (name : String) :
    base.OnTop (d.withJoins (d.joins.require name)) (d'.withJoins (d'.joins.require name)) where
  values := h.values
  root := (d.joins.root_require name).trans h.root
  root_eq := (d'.joins.root_require name).trans h.root_eq
  required other := by
    simp only [withJoins, JoinRequest.mem_required_require, h.root, h.root_eq, h.required, or_assoc]
  selected other := by
    simp only [withJoins, JoinRequest.selected_require, h.selected]
  condition := h.condition
  all := h.all

theorem select (h : base.OnTop d d') (name : String) :
    base.OnTop (d.withJoins (d.joins.select name)) (d'.withJoins (d'.joins.select name)) where
  values := h.values
  root := (d.joins.root_select name).trans h.root
  root_eq := (d'.joins.root_select name).trans h.root_eq
  required other := by
    simp only [withJoins, JoinRequest.required_select]
    exact (h.require name).required other
  selected other := by
    simp only [withJoins, JoinRequest.mem_selected_select, h.root, h.root_eq, h.selected, or_assoc]
  condition := h.condition
  all := h.all

theorem lockstep (s : Schema) (base : Draft) :
    Lockstep s base.params.size (OnTop base) where
  -- the values are appended behind those of both, so the base stays in front
  next_eq h := by
    simp only [Sql.Params.next, Sql.Params.size, h.values, List.length_append, Nat.add_assoc]
  withValues {d d'} values h := by
    have hvalues : (d'.withValues values).params.values =
        base.params.values ++ (d.withValues values).params.values := by
      rw [values_withValues, values_withValues, h.values, List.append_assoc]
    exact { h with values := hvalues }
  require _ h := h.require _
  select _ h := h.select _
  requireExpeditions h := { h with }
  requireAll h := { h with all := (Bool.or_true _).symm }

end Draft.OnTop

/-! ## §6 Visits whatever their outcome -/

theorem Draft.visit_eq (d : Draft) (scope : Scope) (e : Expression) :
    d.visit scope e =
      match Drafting.outcome (Drafting.condition scope e) d with
      | (.ok c, d₁) => (.ok (), { d₁ with condition := Drafting.combine .and d₁.condition c })
      | (.error error, d₁) => (.error error, d₁) := by
  refine (Drafting.outcome_bind (Drafting.condition scope e) Drafting.restrict d).trans ?_
  -- what is left are the two results of the visit
  generalize Drafting.outcome (Drafting.condition scope e) d = r
  obtain ⟨a | c, d₁⟩ := r <;> rfl

/-- What single calls keep of a request is kept by every visit, whatever its outcome. -/
theorem JoinRequest.Kept.outcome_condition {scope : Scope} {P : JoinRequest → Prop}
    (hP : Kept scope.schema P) {d : Draft} (hd : P d.joins) (e : Expression) :
    P (Drafting.outcome (Drafting.condition scope e) d).2.joins := by
  -- a draft runs in lockstep with itself, as long as its joins have the property
  have hlockstep : Lockstep scope.schema 0 fun d d' => d' = d ∧ P d.joins := by
    refine ⟨?_, ?_, ?_, ?_, ?_, ?_⟩
    · rintro d _ ⟨rfl, -⟩
      exact (Nat.zero_add _).symm
    · rintro d _ values ⟨rfl, hd⟩
      exact ⟨rfl, hd⟩
    · rintro d _ e he ⟨rfl, hd⟩
      exact ⟨rfl, hP.require he hd⟩
    · rintro d _ e he ⟨rfl, hd⟩
      exact ⟨rfl, hP.select he hd⟩
    · rintro d _ ⟨rfl, hd⟩
      exact ⟨rfl, hP.requireExpeditions hd⟩
    · rintro d _ ⟨rfl, hd⟩
      exact ⟨rfl, hd⟩
  exact (Drafting.Follows.condition hlockstep e d d ⟨rfl, hd⟩).2.2

/-- So it is by visits of which the condition is added. -/
theorem JoinRequest.Kept.visit {scope : Scope} {P : JoinRequest → Prop}
    (hP : Kept scope.schema P) {d : Draft} (hd : P d.joins) (e : Expression) :
    P (d.visit scope e).2.joins := by
  have hjoins := hP.outcome_condition hd e
  rw [Draft.visit_eq]
  revert hjoins
  generalize Drafting.outcome (Drafting.condition scope e) d = r
  obtain ⟨a | c, d₁⟩ := r <;> exact id

end EntityQuery
