import EntityQuery.Proofs.ClosedStatement
import EntityQuery.Proofs.Hierarchy.Agreement
import EntityQuery.Proofs.Lockstep

/-!
# Selections

A selection around an expression asks for its entities before the expression is visited. The visit
then binds the same values under the same numbers, finds the same condition, and asks for everything
that it asks for without the selection. So with entities that are related to the root, a selection
compiles whenever its expression does, and to a statement with the same WHERE clause
(`Compiles.exists_selectWith`).
-/

namespace EntityQuery

/-! ## §1 Requests -/

namespace JoinRequest

variable (r : JoinRequest) (names : List String) {name : String}

/-- Selecting entities is a sequence of calls. -/
theorem foldl_select_eq : names.foldl select r = (names.map JoinCall.select).foldl call r := by
  rw [List.foldl_map]
  rfl

theorem mem_required_foldl_select : name ∈ (names.foldl select r).required ↔
    name ∈ r.required ∨ name ≠ r.root ∧ name ∈ names := by
  rw [foldl_select_eq, mem_required_foldl_call]
  simp [registered, JoinCall.entity?, Function.comp_def]

theorem mem_selected_foldl_select : name ∈ (names.foldl select r).selected ↔
    name ∈ r.selected ∨ name ≠ r.root ∧ name ∈ names := by
  rw [foldl_select_eq, mem_selected_foldl_call]
  simp

end JoinRequest

/-! ## §2 Drafts -/

/-- A draft is as another one, but for some entities that were selected in addition. -/
structure Draft.Selects (entities : List String) (d d' : Draft) : Prop where
  params : d'.params = d.params
  root : d'.joins.root = d.joins.root
  required : ∀ name, name ∈ d'.joins.required ↔
    name ≠ d.joins.root ∧ name ∈ entities ∨ name ∈ d.joins.required
  selected : ∀ name, name ∈ d'.joins.selected ↔
    name ≠ d.joins.root ∧ name ∈ entities ∨ name ∈ d.joins.selected
  condition : d'.condition = d.condition
  all : d'.all = d.all

theorem Drafting.outcome_selectEntities {scope : Scope} {names : List String}
    (h : scope.schema.Declares names) (d : Draft) :
    outcome (names.forM (selectEntity scope)) d =
      (.ok (), d.withJoins (names.foldl JoinRequest.select d.joins)) := by
  induction names generalizing d with
  | nil => rfl
  | cons name names ih =>
    obtain ⟨e, he, rfl⟩ := h name List.mem_cons_self
    have hfirst : outcome (selectEntity scope e.name) d =
        (.ok (), d.withJoins (d.joins.select e.name)) := by
      rw [selectEntity, Schema.entity?_of_mem he]
      rfl
    show outcome (selectEntity scope e.name >>= fun _ => names.forM (selectEntity scope)) d = _
    rw [outcome_bind, hfirst]
    exact ih (fun other hother => h other (List.mem_cons_of_mem _ hother)) _

/-- A selection around an expression is visited as the expression is, on top of its entities. -/
theorem Draft.exists_visit_selectWith {scope : Scope} {d : Draft} {e : Expression}
    {entities : List String} (hvisit : scope.emptyDraft.visit scope e = (.ok (), d))
    (hentities : scope.schema.Declares entities) :
    ∃ d', scope.emptyDraft.visit scope (.selectWith entities e) = (.ok (), d') ∧
      d.Selects entities d' := by
  let base := scope.emptyDraft.withJoins (entities.foldl JoinRequest.select scope.emptyDraft.joins)
  have hroot : base.joins.root = scope.root := JoinRequest.root_foldl_select _ _
  obtain ⟨c, d₁, hsteps, rfl⟩ := visit_eq_ok.mp hvisit
  obtain ⟨houtcome, htop⟩ := Drafting.Follows.condition (OnTop.lockstep scope.schema base) e _ _
    (OnTop.emptyDraft hroot)
  -- the entities have used up no numbers
  have hmoved : Option.map (Drafting.moved base.params.size) = id := Drafting.map_moved_zero
  rw [hmoved, hsteps] at houtcome
  rw [hsteps] at htop
  obtain ⟨d₁', hd₁'⟩ : ∃ d₁', Drafting.outcome (Drafting.condition scope e) base = (.ok c, d₁') :=
    ⟨_, Prod.ext houtcome rfl⟩
  rw [hd₁'] at htop
  have hwith : Drafting.Steps (Drafting.condition scope (.selectWith entities e))
      scope.emptyDraft c d₁' := by
    show Drafting.outcome (entities.forM (Drafting.selectEntity scope) >>= fun _ =>
      Drafting.condition scope e) scope.emptyDraft = _
    rw [Drafting.outcome_bind, Drafting.outcome_selectEntities hentities]
    exact hd₁'
  have hnone : d₁.condition = none := hsteps.writes.condition_eq
  have hnone' : d₁'.condition = none := htop.condition
  have hroot₁ : d₁.joins.root = scope.root := htop.root.trans hroot
  have hrequired : ∀ name, name ∈ base.joins.required ↔ name ≠ scope.root ∧ name ∈ entities := by
    intro name
    exact (JoinRequest.mem_required_foldl_select _ _).trans (by simp [Scope.emptyDraft])
  have hselected : ∀ name, name ∈ base.joins.selected ↔ name ≠ scope.root ∧ name ∈ entities := by
    intro name
    exact (JoinRequest.mem_selected_foldl_select _ _).trans (by simp [Scope.emptyDraft])
  refine ⟨_, visit_eq_ok.mpr ⟨c, d₁', hwith, rfl⟩, ?_⟩
  exact
    { params := congrArg Sql.Params.mk htop.values
      root := htop.root_eq.trans htop.root.symm
      required := fun name => by
        rw [htop.required, hrequired, ← hroot₁]
      selected := fun name => by
        rw [htop.selected, hselected, ← hroot₁]
      condition := by
        show Drafting.combine .and d₁'.condition c = Drafting.combine .and d₁.condition c
        rw [hnone, hnone']
      all := htop.all.trans (Bool.false_or _) }

/-! ## §3 Statements -/

theorem Schema.sameTree_of_areRelated {s : Schema} {a b : String}
    (h : s.areRelated a b = true) : s.SameTree a b := by
  obtain ⟨-, c, hca, hcb⟩ := areRelated_eq_true_iff.mp h
  exact ⟨c.name, (mem_lineage.mp hca).2, (mem_lineage.mp hcb).2⟩

section Statements

variable {s : Schema} {root : String} {e : Expression} {o : CompileOptions} {scope : Scope}
  {d : Draft} {steps : List JoinStep} {q : Sql.Query} {entities : List String}

/-- A selection of the root and of related entities compiles whenever its expression does. -/
theorem Compiles.exists_selectWith (h : Compiles s root e o scope d steps q)
    (hentities : ∀ name ∈ entities, name = root ∨ s.areRelated root name = true) :
    ∃ d' steps' q', Compiles s root (.selectWith entities e) o scope d' steps' q' ∧
      d.Selects entities d' := by
  obtain rfl := h.schema_eq
  obtain rfl := h.root_eq
  have hdeclares : scope.schema.Declares entities := by
    intro name hname
    apply Schema.declares_singleton.mp
    rcases hentities name hname with rfl | hrelated
    · exact h.declares_root
    · exact (Schema.declares_of_areRelated hrelated).2
  obtain ⟨d', hvisit, hselects⟩ := Draft.exists_visit_selectWith h.visited hdeclares
  have hsound : JoinRequest.Sound scope.schema d'.joins := by
    have hstart : JoinRequest.Sound scope.schema scope.emptyDraft.joins := .start h.declares_root
    have hkept := (JoinRequest.kept_sound scope.schema).visit hstart (.selectWith entities e)
    rwa [hvisit] at hkept
  obtain ⟨hops, hplan⟩ := h.exists_isPlan
  obtain ⟨limit, rows, hlimit, hassembles⟩ := h.assembled
  have hspec := hsound.requireExpeditions.plan_spec
  -- all entities are in the tree of the root
  cases hsteps : d'.finalJoins.plan scope.schema with
  | error error =>
    have hroot : d'.joins.root = scope.root := hselects.root.trans h.finalJoins_root
    rw [show d'.joins.requireExpeditions = d'.finalJoins from rfl, hsteps] at hspec
    obtain ⟨target, htarget, -, hnot⟩ := hspec
    refine absurd ?_ hnot
    show scope.schema.SameTree d'.joins.root target
    rw [hroot]
    rcases (hselects.required target).mp htarget with ⟨hne, hmem⟩ | hmem
    · have hrelated := (hentities target hmem).resolve_left (h.finalJoins_root ▸ hne)
      exact Schema.sameTree_of_areRelated hrelated
    · exact h.finalJoins_root ▸ hplan.sameTree target hmem
  | ok steps' =>
    have hcondition : d'.finalCondition = .ok d'.condition := by
      have hfinal := hassembles.condition
      unfold Draft.finalCondition at hfinal ⊢
      rwa [hselects.condition, hselects.all]
    exact ⟨d', steps', _, ⟨h.inScope, hvisit, limit, rows, hlimit, hcondition, hassembles.limit,
      hsteps, hassembles.window, rfl⟩, hselects⟩

end Statements

end EntityQuery
