import EntityQuery.Proofs.Joins.Larger
import EntityQuery.Proofs.Lockstep

/-!
# Outcomes that another schema reproduces

What compiles under one schema is compiled under another one, too, and in the same way, if the other
schema holds all entities of the first and plain columns are found in the same places. What becomes
of an error is left to a relation, which says by what error, if any, an error may be replaced.

The two schemas meet an expression in a few places only: where a column is resolved and where an
entity is selected. All other steps are the same. In the end the joins are planned, and what was
asked for are entities of the first schema, whose plan does not change
(`JoinRequest.Sound.plan_eq`).
-/

namespace EntityQuery

variable {α β : Type}

/-! ## §1 Outcomes -/

/-- The error of an outcome that is a failure. -/
def failure? : Except QueryError α → Option QueryError
  | .ok _ => none
  | .error e => some e

theorem failure?_eq_some {r : Except QueryError α} {e : QueryError} :
    failure? r = some e ↔ r = .error e := by
  cases r <;> simp [failure?]

/-- What may become of an error: it stays, or it may turn into another one or into none. -/
structure Leeway (P : QueryError → Option QueryError → Prop) : Prop where
  same : ∀ e, P e (some e)
  /-- Where nothing has failed yet, whatever comes later may. -/
  free : ∀ {e}, P e none → ∀ r, P e r

/-- A success is reproduced, and an error is replaced by what may become of it. -/
def Reproduces (P : QueryError → Option QueryError → Prop) (r r' : Except QueryError α) : Prop :=
  match r with
  | .ok a => r' = .ok a
  | .error e => P e (failure? r')

namespace Reproduces

variable {P : QueryError → Option QueryError → Prop}

theorem refl (hP : Leeway P) (r : Except QueryError α) : Reproduces P r r := by
  cases r with
  | ok a => rfl
  | error e => exact hP.same e

/-- What follows only has to be reproduced where the first step succeeds. -/
theorem bind (hP : Leeway P) {r r' : Except QueryError α} {f f' : α → Except QueryError β}
    (hr : Reproduces P r r') (hf : ∀ a, r = .ok a → Reproduces P (f a) (f' a)) :
    Reproduces P (r >>= f) (r' >>= f') := by
  cases r with
  | ok a =>
    obtain rfl : r' = .ok a := hr
    exact hf a rfl
  | error e =>
    have he : P e (failure? r') := hr
    -- the other side may go on and fail later, or not at all
    cases r' with
    | ok a => exact hP.free he _
    | error e' => exact he

theorem map (hP : Leeway P) {r r' : Except QueryError α} (f : α → β) (h : Reproduces P r r') :
    Reproduces P (r.map f) (r'.map f) := by
  have hbind : ∀ r : Except QueryError α, r.map f = r >>= fun a => .ok (f a) := by
    intro r
    cases r <;> rfl
  rw [hbind, hbind]
  exact h.bind hP fun a _ => refl hP _

end Reproduces

/-- A step whose attempts are reproduced by those of another one. -/
def Drafting.Reproduces (P : QueryError → Option QueryError → Prop) (x x' : Drafting α) : Prop :=
  ∀ d, EntityQuery.Reproduces P (attempt x d) (attempt x' d)

/-! ## §2 Columns and entities -/

/-- A scope of which another one reproduces what columns and entities are found. -/
structure Scope.ReproducedBy (P : QueryError → Option QueryError → Prop) (scope scope' : Scope) :
    Prop where
  leeway : Leeway P
  within : scope.schema.Within scope'.schema
  root : scope'.root = scope.root
  /-- An unknown entity stays unknown, or anything may become of the error. -/
  unknown : ∀ name, scope.schema.entity? name = none →
    scope'.schema.entity? name = none ∨ ∀ text r, P (.unknownEntity text) r
  pick : ∀ column, Reproduces P
    (Schema.pick scope.policy scope.root column (scope.schema.withColumn column))
    (Schema.pick scope'.policy scope'.root column (scope'.schema.withColumn column))

theorem Column.ofEntity?_eq {s s' : Schema} (h : s.Within s') {e : Entity} (he : e ∈ s.entities)
    (column : String) : ofEntity? s' e column = ofEntity? s e column := by
  rw [ofEntity?, ofEntity?, h.parent?_eq he]

theorem Column.ofMetadata_eq {s s' : Schema} (h : s.Within s') (property : String) :
    ofMetadata s' property = ofMetadata s property := by
  rw [ofMetadata, ofMetadata, Schema.metadataProperty?, h.metadata, ← Schema.metadataProperty?]

namespace Scope.ReproducedBy

variable {P : QueryError → Option QueryError → Prop} {scope scope' : Scope}

theorem resolveQualified (h : scope.ReproducedBy P scope') (token qualifier column : String) :
    Reproduces P (scope.schema.resolveQualified token qualifier column)
      (scope'.schema.resolveQualified token qualifier column) := by
  unfold Schema.resolveQualified
  -- both schemas have the same metadata
  rw [Column.ofMetadata_eq h.within]
  split
  · exact .refl h.leeway _
  · cases hentity : scope.schema.entity? qualifier with
    | none =>
      rcases h.unknown qualifier hentity with hentity' | hfree
      · rw [hentity']
        exact .refl h.leeway _
      · exact hfree _ _
    | some e =>
      have he := (Schema.mem_entities_of_entity? hentity).1
      simp only [h.within.entity?_eq hentity, Column.ofEntity?_eq h.within he]
      exact .refl h.leeway _

theorem resolvePlain (h : scope.ReproducedBy P scope') (token : String) :
    Reproduces P (scope.schema.resolvePlain scope.policy scope.root token)
      (scope'.schema.resolvePlain scope'.policy scope'.root token) := by
  have hbind : ∀ (s : Schema) (policy : ColumnPolicy) (root : String),
      s.resolvePlain policy root token =
        Schema.pick policy root token (s.withColumn token) >>= fun owner =>
          (Column.ofEntity? s owner token).elim (.error (.unknownColumn token)) .ok := by
    intro s policy root
    unfold Schema.resolvePlain
    cases Schema.pick policy root token (s.withColumn token) with
    | error e => rfl
    | ok owner =>
      simp only [Bind.bind, Except.bind]
      cases Column.ofEntity? s owner token <;> rfl
  rw [hbind, hbind]
  -- the entity that is picked is one of the first schema, and so is its parent
  apply (h.pick token).bind h.leeway
  intro owner howner
  have hmem := (List.mem_filter.mp (Schema.mem_of_pick howner)).1
  rw [Column.ofEntity?_eq h.within hmem]
  exact .refl h.leeway _

theorem resolve (h : scope.ReproducedBy P scope') (token : String) :
    Reproduces P (scope.schema.resolve scope.policy scope.root token)
      (scope'.schema.resolve scope'.policy scope'.root token) := by
  unfold Schema.resolve
  split
  · exact h.resolveQualified _ _ _
  · exact h.resolvePlain _

end Scope.ReproducedBy

/-! ## §3 Visits -/

namespace Drafting.Reproduces

variable {P : QueryError → Option QueryError → Prop} {scope scope' : Scope}

theorem refl (hP : Leeway P) (x : Drafting α) : Reproduces P x x :=
  fun _ => .refl hP _

theorem bind (hP : Leeway P) {x x' : Drafting α} {f f' : α → Drafting β} (hx : Reproduces P x x')
    (hf : ∀ a, Reproduces P (f a) (f' a)) : Reproduces P (x >>= f) (x' >>= f') := by
  intro d
  rw [attempt_bind, attempt_bind]
  exact (hx d).bind hP fun r _ => hf r.1 r.2

theorem mapM (hP : Leeway P) {x x' : β → Drafting α} (h : ∀ b, Reproduces P (x b) (x' b))
    (bs : List β) : Reproduces P (bs.mapM x) (bs.mapM x') := by
  induction bs with
  | nil => exact refl hP _
  | cons b bs ih =>
    rw [List.mapM_cons, List.mapM_cons]
    exact (h b).bind hP fun a => ih.bind hP fun as => refl hP _

theorem forM (hP : Leeway P) {x x' : β → Drafting Unit} (h : ∀ b, Reproduces P (x b) (x' b))
    (bs : List β) : Reproduces P (bs.forM x) (bs.forM x') := by
  induction bs with
  | nil => exact refl hP _
  | cons b bs ih => exact (h b).bind hP fun _ => ih

theorem resolve (h : scope.ReproducedBy P scope') (token : String) :
    Reproduces P (Drafting.resolve scope token) (Drafting.resolve scope' token) := by
  refine bind h.leeway ?_ fun column => refl h.leeway _
  intro d
  rw [attempt_liftM, attempt_liftM]
  exact (h.resolve token).map h.leeway _

theorem selectEntity (h : scope.ReproducedBy P scope') (name : String) :
    Reproduces P (Drafting.selectEntity scope name) (Drafting.selectEntity scope' name) := by
  unfold Drafting.selectEntity
  cases hentity : scope.schema.entity? name with
  | some e =>
    rw [h.within.entity?_eq hentity]
    exact refl h.leeway _
  | none =>
    rcases h.unknown name hentity with hentity' | hfree
    · rw [hentity']
      exact refl h.leeway _
    · exact fun d => hfree name _

theorem search (h : scope.ReproducedBy P scope') (column : Option String) (term : String) :
    Reproduces P (Drafting.search scope column term) (Drafting.search scope' column term) := by
  unfold Drafting.search
  cases searchText? term with
  | none => exact refl h.leeway _
  | some text =>
    cases column with
    | none =>
      rw [h.root]
      exact refl h.leeway _
    | some token => exact (resolve h token).bind h.leeway fun column => refl h.leeway _

theorem present (h : scope.ReproducedBy P scope') (tokens : List String) :
    Reproduces P (Drafting.present scope tokens) (Drafting.present scope' tokens) := by
  have hcolumns := mapM h.leeway (resolve h) tokens
  unfold Drafting.present
  split
  · exact (refl h.leeway _).bind h.leeway fun _ => hcolumns.bind h.leeway fun _ => refl h.leeway _
  · exact hcolumns.bind h.leeway fun _ => refl h.leeway _

theorem condition (h : scope.ReproducedBy P scope') (e : Expression) :
    Reproduces P (Drafting.condition scope e) (Drafting.condition scope' e) := by
  have hselect := fun names => forM h.leeway (selectEntity h) names
  -- on the expression; nodes that name neither a column nor an entity are the same in both scopes
  induction e with
  | comparison token operator term | range token spec | like token term =>
    exact (resolve h token).bind h.leeway fun _ => refl h.leeway _
  | search column term => exact (search h column term).bind h.leeway fun _ => refl h.leeway _
  | present tokens => exact (present h tokens).bind h.leeway fun _ => refl h.leeway _
  | not inner ih | group inner ih => exact ih.bind h.leeway fun _ => refl h.leeway _
  | logical connective left right ihl ihr =>
    exact ihl.bind h.leeway fun _ => ihr.bind h.leeway fun _ => refl h.leeway _
  | select entities => exact (hselect entities).bind h.leeway fun _ => refl h.leeway _
  | selectWith entities inner ih => exact (hselect entities).bind h.leeway fun _ => ih
  | expedition | project | all | empty => exact refl h.leeway _

theorem visit (h : scope.ReproducedBy P scope') (e : Expression) :
    Reproduces P (Drafting.visit scope e) (Drafting.visit scope' e) :=
  (condition h e).bind h.leeway fun _ => refl h.leeway _

end Drafting.Reproduces

/-! ## §4 Statements -/

/-- A finished draft that asks for entities of a schema is assembled in the same way under a larger
one. -/
theorem Draft.prepare_eq {scope scope' : Scope} {d : Draft}
    (hsound : JoinRequest.Sound scope.schema d.joins) (h : scope.schema.Within scope'.schema)
    (hroot : scope'.root = scope.root) (network : Nat) (publicOnly : Bool) (p : Pagination) :
    d.prepare scope' network publicOnly p = d.prepare scope network publicOnly p := by
  have hfinal : JoinRequest.Sound scope.schema d.finalJoins := hsound.requireExpeditions
  simp only [prepare, query, JoinRequest.joins, hroot, hfinal.plan_eq h, hfinal.selection_eq h]

theorem Scope.ReproducedBy.compile {P : QueryError → Option QueryError → Prop}
    {scope scope' : Scope} (h : scope.ReproducedBy P scope')
    (hroot : scope.schema.Declares [scope.root]) (network : Nat) (publicOnly : Bool)
    (p : Pagination) (e : Expression) :
    Reproduces P (scope.compile network publicOnly p e)
      (scope'.compile network publicOnly p e) := by
  have hempty : scope'.emptyDraft = scope.emptyDraft := by rw [emptyDraft, emptyDraft, h.root]
  rw [compile_eq, compile_eq, hempty]
  apply (Drafting.Reproduces.visit h e scope.emptyDraft).bind h.leeway
  rintro ⟨_, d⟩ hvisit
  -- both visits have left one draft, which asks for entities of the first schema only
  have houtcome : scope.emptyDraft.visit scope e = (.ok (), d) := Drafting.attempt_eq_ok.mp hvisit
  have hsound : JoinRequest.Sound scope.schema (scope.emptyDraft.visit scope e).2.joins :=
    (JoinRequest.kept_sound scope.schema).visit (.start hroot) e
  rw [houtcome] at hsound
  rw [d.prepare_eq hsound h.within h.root]
  exact .refl h.leeway _

/-- Where plain columns are found in the same places, a larger schema reproduces what compiles. -/
theorem Schema.Within.compile {P : QueryError → Option QueryError → Prop} {s s' : Schema}
    (h : s.Within s') (hP : Leeway P) {o : CompileOptions}
    (hunknown : ∀ name, s.entity? name = none →
      s'.entity? name = none ∨ ∀ text r, P (.unknownEntity text) r)
    (hpick : ∀ root column, s.Declares [root] → Reproduces P
      (pick o.policy root column (s.withColumn column))
      (pick o.policy root column (s'.withColumn column)))
    (root : String) (e : Expression) :
    Reproduces P (s.compile root e o) (s'.compile root e o) := by
  apply (Reproduces.refl hP o.effectiveLimit).bind hP
  intro limit _
  cases hroot : s.entity? root with
  | none =>
    unfold Schema.scope
    rw [hroot]
    rcases hunknown root hroot with hroot' | hfree
    · rw [hroot']
      exact .refl hP _
    · exact hfree root _
  | some e' =>
    unfold Schema.scope
    rw [hroot, h.entity?_eq hroot]
    have hdeclared : s.Declares [e'.name] :=
      declares_singleton.mpr ⟨e', (mem_entities_of_entity? hroot).1, rfl⟩
    have hscope : Scope.ReproducedBy P ⟨s, e'.name, o.policy⟩ ⟨s', e'.name, o.policy⟩ :=
      ⟨hP, h, rfl, hunknown, fun column => hpick e'.name column hdeclared⟩
    exact hscope.compile hdeclared o.network o.publicOnly ⟨o.page, limit⟩ e

end EntityQuery
