import EntityQuery.Proofs.ClosedStatement
import EntityQuery.Proofs.Joins.Sessions
import EntityQuery.Proofs.Lockstep

/-!
# What failed visits leave behind

A visit that fails adds no condition, but what it had asked for before it failed stays in the draft:
values that no placeholder stands for, joins, and the wish for all rows. On every draft it is the
same that stays, namely what the visit leaves on an empty draft. So a failed visit goes unnoticed by
everything that follows if and only if it leaves nothing of this on an empty draft
(`failed_visit_unnoticed_iff`).
-/

namespace EntityQuery

open Sql (Condition)

/-! ## §1 Visits one after the other -/

namespace Draft

/-- Visit expressions one after the other and go on after errors: the outcomes, and the draft as
the visits leave it. -/
def visits (d : Draft) (scope : Scope) : List Expression → List (Except QueryError Unit) × Draft
  | [] => ([], d)
  | e :: es =>
    let rest := (d.visit scope e).2.visits scope es
    ((d.visit scope e).1 :: rest.1, rest.2)

/-- A draft that visits lead to, failed ones among them. -/
def Reachable (scope : Scope) (d : Draft) : Prop :=
  ∃ es, (scope.emptyDraft.visits scope es).2 = d

theorem reachable_emptyDraft (scope : Scope) : scope.emptyDraft.Reachable scope :=
  ⟨[], rfl⟩

theorem kept_visits {scope : Scope} {P : JoinRequest → Prop}
    (hP : JoinRequest.Kept scope.schema P) {d : Draft} (hd : P d.joins) (es : List Expression) :
    P (d.visits scope es).2.joins := by
  induction es generalizing d with
  | nil => exact hd
  | cons e es ih => exact ih (hP.visit hd e)

theorem kept_root (s : Schema) (root : String) : JoinRequest.Kept s (·.root = root) where
  require _ h := (JoinRequest.root_require _ _).trans h
  select _ h := (JoinRequest.root_select _ _).trans h
  requireExpeditions h := h

theorem Reachable.root_eq {scope : Scope} {d : Draft} (h : d.Reachable scope) :
    d.joins.root = scope.root := by
  obtain ⟨es, rfl⟩ := h
  exact kept_visits (kept_root scope.schema scope.root) rfl es

end Draft

/-! ## §2 Failed visits on any draft -/

/-- A visit on top of a draft has the outcome that it has without it, and if it fails, leaves on
top of the draft what it leaves without it. -/
theorem Draft.OnTop.visit {base d d' : Draft} (h : base.OnTop d d') (scope : Scope)
    (e : Expression) :
    (d'.visit scope e).1 = (d.visit scope e).1 ∧
      ∀ error, (d.visit scope e).1 = .error error →
        base.OnTop (d.visit scope e).2 (d'.visit scope e).2 := by
  have hfollows := Drafting.Follows.condition (OnTop.lockstep scope.schema base) e
  rw [visit_eq, visit_eq]
  -- if it succeeds there is nothing to show about what it leaves
  rcases hfollows.outcome_cases h with ⟨c, d₁, d₁', hok, hok', -⟩ |
    ⟨error, d₁, d₁', herror, herror', htop⟩
  · rw [hok, hok']
    exact ⟨rfl, fun error herror => absurd herror (by simp)⟩
  · rw [herror, herror']
    exact ⟨rfl, fun _ _ => htop⟩

/-! ## §3 Drafts of the same statement -/

/-- Drafts that differ in the order and the number of repetitions of what was asked for at most,
and in whether the expeditions were. -/
structure Draft.SameUse (d d' : Draft) : Prop where
  params : d'.params = d.params
  root : d'.joins.root = d.joins.root
  required : ∀ name, name ∈ d'.joins.required ↔ name ∈ d.joins.required
  selected : ∀ name, name ∈ d'.joins.selected ↔ name ∈ d.joins.selected
  condition : d'.condition = d.condition
  all : d'.all = d.all

/-- The base that adds nothing but a root and a condition. -/
def Draft.neutral (d : Draft) : Draft :=
  { joins := { root := d.joins.root }, condition := d.condition }

theorem Draft.SameUse.onTop {d d' : Draft} (h : d.SameUse d') : d.neutral.OnTop d d' where
  values := congrArg Sql.Params.values h.params
  root := rfl
  root_eq := h.root
  required name := by simp [neutral, h.required]
  selected name := by simp [neutral, h.selected]
  condition := h.condition
  all := h.all

theorem Draft.SameUse.refl (d : Draft) : d.SameUse d :=
  ⟨rfl, rfl, fun _ => .rfl, fun _ => .rfl, rfl, rfl⟩

/-- Visits have the same outcome on both drafts and leave drafts that differ no more. -/
theorem Draft.SameUse.visit {d d' : Draft} (h : d.SameUse d') (scope : Scope) (e : Expression) :
    (d'.visit scope e).1 = (d.visit scope e).1 ∧
      (d.visit scope e).2.SameUse (d'.visit scope e).2 := by
  have hfollows := Drafting.Follows.condition (OnTop.lockstep scope.schema d.neutral) e
  have hmoved : Option.map (Drafting.moved d.neutral.params.size) = id := Drafting.map_moved_zero
  -- a visit leaves the condition of the draft alone
  have hcondition := (hfollows d d (SameUse.refl d).onTop).2.condition
  have hsame : ∀ {d₁ d₁' : Draft}, d₁.condition = d.neutral.condition →
      d.neutral.OnTop d₁ d₁' → d₁.SameUse d₁' := by
    intro d₁ d₁' hcondition htop
    exact
      { params := congrArg Sql.Params.mk htop.values
        root := htop.root_eq.trans htop.root.symm
        required := fun name => (htop.required name).trans (by simp [neutral])
        selected := fun name => (htop.selected name).trans (by simp [neutral])
        condition := htop.condition.trans hcondition.symm
        all := htop.all.trans (Bool.false_or _) }
  rw [visit_eq, visit_eq]
  rcases hfollows.outcome_cases h.onTop with ⟨c, d₁, d₁', hok, hok', htop⟩ |
    ⟨error, d₁, d₁', herror, herror', htop⟩
  · -- the same condition is added to both
    rw [hok] at hcondition ⊢
    rw [hok', hmoved]
    have hleft := hsame hcondition htop
    exact ⟨rfl, { hleft with condition := congrArg (Drafting.combine .and · c) hleft.condition }⟩
  · rw [herror] at hcondition ⊢
    rw [herror']
    exact ⟨rfl, hsame hcondition htop⟩

theorem Draft.SameUse.visits {d d' : Draft} (h : d.SameUse d') (scope : Scope)
    (es : List Expression) :
    (d'.visits scope es).1 = (d.visits scope es).1 ∧
      (d.visits scope es).2.SameUse (d'.visits scope es).2 := by
  induction es generalizing d d' with
  | nil => exact ⟨rfl, h⟩
  | cons e es ih =>
    obtain ⟨hfirst, hnext⟩ := h.visit scope e
    obtain ⟨hothers, hlast⟩ := ih hnext
    exact ⟨congrArg₂ List.cons hfirst hothers, hlast⟩

theorem Draft.SameUse.prepare_eq {d d' : Draft} (h : d.SameUse d') (scope : Scope)
    -- the statement is made of the condition, the plan and the selection, and these depend on no
    -- order
    (network : Nat) (publicOnly : Bool) (p : Pagination) :
    d'.prepare scope network publicOnly p = d.prepare scope network publicOnly p := by
  have hcondition : d'.finalCondition = d.finalCondition := by
    rw [finalCondition, finalCondition, h.condition, h.all]
  have hplan : d'.finalJoins.plan scope.schema = d.finalJoins.plan scope.schema :=
    JoinRequest.plan_congr scope.schema h.root h.required h.selected rfl
  have hselection : d'.finalJoins.selection scope.schema = d.finalJoins.selection scope.schema :=
    scope.schema.inOrder_congr h.selected
  simp only [prepare, query, hcondition, JoinRequest.joins, hplan, hselection, h.params]

/-! ## §4 Longer statements -/

namespace Sql

/-- The length of a fragment as it is written. -/
def textLength (tokens : List Token) : Nat :=
  (render tokens).length

@[simp] theorem textLength_append (s t : List Token) :
    textLength (s ++ t) = textLength s + textLength t := by
  rw [textLength, render_append, String.length_append, textLength, textLength]

theorem textLength_separated_le (separator : List Token) (parts more : List (List Token)) :
    textLength (separated separator parts) ≤ textLength (separated separator (parts ++ more)) := by
  induction parts with
  | nil => exact Nat.zero_le _
  -- a separator and more parts can only add to the text
  | cons first parts ih =>
    cases parts with
    | nil => cases more <;> simp [separated]
    | cons second parts => simpa [separated] using ih

/-- The joins of a statement as they are written. -/
def joinTokens (joins : List Join) : List Token :=
  joins.flatMap fun j => .space :: j.tokens

theorem textLength_joinTokens_pos {joins : List Join} (h : joins ≠ []) :
    0 < textLength (joinTokens joins) := by
  obtain ⟨first, others, rfl⟩ := List.exists_cons_of_ne_nil h
  have hspace : textLength [.space] = 1 := by decide
  have hsplit : joinTokens (first :: others) =
      [.space] ++ (first.tokens ++ joinTokens others) := by
    simp [joinTokens]
  rw [hsplit, textLength_append, hspace]
  omega

/-- Two statements that differ in what is shown and in their joins, of which the one shows more. -/
structure Query.ShowsMore (q q' : Query) (more : List SelectItem) : Prop where
  select : q'.select = q.select ++ more
  source : q'.source = q.source
  filter : q'.filter = q.filter
  orderBy : q'.orderBy = q.orderBy
  offset : q'.offset = q.offset
  limit : q'.limit = q.limit

/-- If it is written in the same way nevertheless, its joins do not take more room. -/
theorem Query.ShowsMore.textLength_joins_le {q q' : Query} {more : List SelectItem}
    (h : q.ShowsMore q' more) (htext : q'.text = q.text) :
    textLength (joinTokens q'.joins) ≤ textLength (joinTokens q.joins) := by
  -- the text apart from what is shown and the joins is the same, so the lengths can be compared
  have htokens : ∀ q : Query, q.text.length = textLength ([.keyword .SELECT, .space] ++
      joinedByComma (q.select.map SelectItem.tokens) ++
      clause? .FROM (q.source.map TableRef.tokens) ++ joinTokens q.joins ++
      (if q.filter.isEmpty then [] else clause .WHERE q.filter) ++
      (if q.orderBy.isEmpty then [] else clause .ORDER_BY (joinedByComma q.orderBy)) ++
      clause? .OFFSET (q.offset.map ([.number ·])) ++
      clause? .LIMIT (q.limit.map ([.number ·]))) := fun _ => rfl
  have hlength := congrArg String.length htext
  have hselect := textLength_separated_le [.symbol .comma, .space]
    (q.select.map SelectItem.tokens) (more.map SelectItem.tokens)
  rw [htokens, htokens, h.select, h.source, h.filter, h.orderBy, h.offset, h.limit] at hlength
  simp only [textLength_append, List.map_append, joinedByComma] at hlength hselect
  omega

end Sql

/-! ## §5 What goes unnoticed -/

/-- An expression that can be visited on every draft. -/
def Expression.probe : Expression :=
  .expedition ["x"]

theorem Draft.visit_probe (d : Draft) (scope : Scope) :
    d.visit scope .probe = (.ok (),
      { params := d.params.append ["x"]
        joins := d.joins.requireExpeditions
        condition := Drafting.combine .and d.condition
          (some (.test (.isValue .code d.params.next)))
        all := d.all }) :=
  rfl

/-- Hops are written: a statement that is written like the one of a draft without requests has
none. -/
theorem JoinRequest.IsPlan.hops_eq_nil {scope : Scope} {d d₀ : Draft} {hops : List Hop}
    {steps : List JoinStep} {network : Nat} {publicOnly : Bool} {rows : Option Window}
    (hplan : IsPlan scope.schema d.finalJoins hops steps) (hroot : d.joins.root = scope.root)
    (hcondition : d.condition = d₀.condition) (hnone : d₀.joins.selected = [])
    (htext :
      (d.statement scope network publicOnly (steps.map (JoinStep.toJoin network)) rows).text =
      (d₀.statement scope network publicOnly
        ([.identifiers scope.root, .expeditions scope.root].map (JoinStep.toJoin network))
        rows).text) : hops = [] := by
  have hroot' : d.finalJoins.root = scope.root := hroot
  have hselection : d₀.finalJoins.selection scope.schema = [] := by
    show scope.schema.inOrder d₀.joins.selected = []
    rw [hnone]
    rfl
  have hmore : Sql.Query.ShowsMore
      (d₀.statement scope network publicOnly
        ([.identifiers scope.root, .expeditions scope.root].map (JoinStep.toJoin network)) rows)
      (d.statement scope network publicOnly (steps.map (JoinStep.toJoin network)) rows)
      ((d.finalJoins.selection scope.schema).flatMap entityItems) := by
    refine ⟨?_, rfl, ?_, rfl, rfl, rfl⟩
    · simp only [Draft.statement, hselection, List.flatMap_nil, List.append_nil]
    · simp only [Draft.statement, Draft.filter, hcondition]
  have hle := hmore.textLength_joins_le htext
  by_contra hne
  have hjoins : (hops.map JoinStep.entity).map (JoinStep.toJoin network) ≠ [] := by
    simpa using hne
  have hpos := Sql.textLength_joinTokens_pos hjoins
  -- the joins of the other statement come after the hops
  have hexpeditions : d.finalJoins.expeditions = true := rfl
  simp only [Draft.statement, hplan.steps, hroot', hexpeditions, if_true, List.map_append,
    List.map_cons, List.map_nil, Sql.joinTokens, List.flatMap_append, List.flatMap_cons,
    List.flatMap_nil, List.append_nil, Sql.textLength_append] at hle hpos
  omega

theorem Scope.prepare_probe (scope : Scope) :
    (scope.emptyDraft.visit scope .probe).2.prepare scope 1 false {} =
      .ok ⟨((scope.emptyDraft.visit scope .probe).2.statement scope 1 false
        ([.identifiers scope.root, .expeditions scope.root].map (JoinStep.toJoin 1)) none).text,
        ⟨["x"]⟩⟩ :=
  rfl

/-- A draft that becomes the statement of the probe alone when the probe is visited has nothing in
it. -/
theorem Draft.nothing_of_prepare_probe {scope : Scope} {d : Draft}
    (hsound : JoinRequest.Sound scope.schema d.joins) (hroot : d.joins.root = scope.root)
    (hcondition : d.condition = none)
    (h : (d.visit scope .probe).2.prepare scope 1 false {} =
      (scope.emptyDraft.visit scope .probe).2.prepare scope 1 false {}) :
    d.params.values = [] ∧ d.joins.required = [] ∧ d.all = false := by
  rw [scope.prepare_probe] at h
  obtain ⟨q, hquery, hprepared⟩ := exists_of_map_eq_ok h
  obtain ⟨htext, hparams⟩ := Sql.Prepared.mk.inj hprepared
  -- the value of the probe comes behind those that were bound before
  have hvalues : d.params.values = [] := by
    have happend : d.params.values ++ ["x"] = [] ++ ["x"] := congrArg Sql.Params.values hparams
    exact List.append_cancel_right happend
  obtain ⟨steps, rows, hassembles⟩ := exists_assembles hquery
  have hall : d.all = false := by
    have hfinal := hassembles.condition
    -- a draft that asks for all rows accepts no condition beside
    rw [visit_probe, hcondition] at hfinal
    cases hd : d.all with
    | false => rfl
    | true => simp [finalCondition, Drafting.combine, hd] at hfinal
  refine ⟨hvalues, ?_, hall⟩
  have hfinal : JoinRequest.Sound scope.schema (d.visit scope .probe).2.finalJoins :=
    hsound.requireExpeditions.requireExpeditions
  have hplan := hfinal.plan_spec
  rw [hassembles.plan] at hplan
  obtain ⟨hops, hplan⟩ := hplan
  obtain rfl : rows = none := (Except.ok.inj hassembles.window).symm
  rw [hassembles.query] at htext
  have hsame : (d.visit scope .probe).2.condition =
      (scope.emptyDraft.visit scope .probe).2.condition := by
    have hnext : d.params.next = scope.emptyDraft.params.next := by
      rw [Sql.Params.next, Sql.Params.size, hvalues]
      rfl
    rw [visit_probe, visit_probe, hcondition, hnext]
    rfl
  obtain rfl : hops = [] := hplan.hops_eq_nil hroot hsame rfl htext
  -- each entity that was asked for has a hop
  rw [List.eq_nil_iff_forall_not_mem]
  exact fun name hname => absurd (hplan.mem_hopTables hfinal hname) List.not_mem_nil

/-- Whatever draft an expression is visited on, nothing that follows can tell: further visits have
the same outcomes, and in the end there is the same statement or error. -/
def Scope.Unnoticed (scope : Scope) (e : Expression) : Prop :=
  ∀ d : Draft, d.Reachable scope → ∀ es network publicOnly p,
    ((d.visit scope e).2.visits scope es).1 = (d.visits scope es).1 ∧
      ((d.visit scope e).2.visits scope es).2.prepare scope network publicOnly p =
        (d.visits scope es).2.prepare scope network publicOnly p

/-- A draft on top of which nothing was put is used like its base. -/
theorem Draft.OnTop.sameUse {base d d' : Draft} (h : base.OnTop d d')
    (hvalues : d.params.values = []) (hrequired : d.joins.required = [])
    (hselected : d.joins.selected = []) (hall : d.all = false) : base.SameUse d' where
  params := by
    have happend := h.values
    rw [hvalues, List.append_nil] at happend
    exact congrArg Sql.Params.mk happend
  root := h.root_eq
  required name := by simp [h.required, hrequired]
  selected name := by simp [h.selected, hselected]
  condition := h.condition
  all := by rw [h.all, hall, Bool.or_false]

/-- If a visit fails on one draft that can be reached, it fails on all of them with the same error,
and leaves on each what it leaves on the empty draft: the values that it has bound, the entities
that it has asked for and selected, and whether it has asked for all rows. It goes unnoticed if and
only if it fails before it has bound a value or asked for an entity or for all rows. -/
theorem Draft.failed_visit_unnoticed_iff {s : Schema} {policy : ColumnPolicy} {root : String}
    {scope : Scope} (hscope : s.scope policy root = .ok scope) {d₀ : Draft}
    (hreachable : d₀.Reachable scope) {e : Expression} {error : QueryError}
    (hfail : (d₀.visit scope e).1 = .error error) :
    (∀ d : Draft, d.Reachable scope → (d.visit scope e).1 = .error error ∧
        d.OnTop (scope.emptyDraft.visit scope e).2 (d.visit scope e).2) ∧
      (scope.Unnoticed e ↔ (scope.emptyDraft.visit scope e).2.params.values = [] ∧
        (scope.emptyDraft.visit scope e).2.joins.required = [] ∧
        (scope.emptyDraft.visit scope e).2.all = false) := by
  have htop := fun (d : Draft) (hd : d.Reachable scope) => OnTop.emptyDraft hd.root_eq
  have hempty : (scope.emptyDraft.visit scope e).1 = .error error :=
    -- the outcome on the empty draft is the one on each draft that can be reached
    ((htop d₀ hreachable).visit scope e).1.symm.trans hfail
  have hfails : ∀ d : Draft, d.Reachable scope → (d.visit scope e).1 = .error error ∧
      d.OnTop (scope.emptyDraft.visit scope e).2 (d.visit scope e).2 := by
    intro d hd
    obtain ⟨houtcome, hleft⟩ := (htop d hd).visit scope e
    exact ⟨houtcome.trans hempty, hleft error hempty⟩
  have hroot : scope.schema.Declares [scope.root] := by
    obtain ⟨rfl, rfl, hroot⟩ := Schema.of_scope hscope
    exact hroot
  have hsound : JoinRequest.Sound scope.schema (scope.emptyDraft.visit scope e).2.joins :=
    (JoinRequest.kept_sound scope.schema).visit (.start hroot) e
  refine ⟨hfails, ?_, ?_⟩
  · -- the probe tells whether something is left, without filters or pages
    intro hunnoticed
    have hprobe := (hunnoticed scope.emptyDraft (reachable_emptyDraft scope) [.probe] 1 false {}).2
    have hleft := (hfails scope.emptyDraft (reachable_emptyDraft scope)).2
    exact nothing_of_prepare_probe hsound hleft.root hleft.condition hprobe
  · rintro ⟨hvalues, hrequired, hall⟩ d hd es network publicOnly p
    -- what is selected was asked for as well
    have hselected : (scope.emptyDraft.visit scope e).2.joins.selected = [] := by
      have hsubset := hsound.selected
      rw [hrequired] at hsubset
      exact List.subset_nil.mp hsubset
    have hsame := (hfails d hd).2.sameUse hvalues hrequired hselected hall
    obtain ⟨houtcomes, hlast⟩ := hsame.visits scope es
    exact ⟨houtcomes, hlast.prepare_eq scope network publicOnly p⟩

/-- Samples of a genus and of a colour, of which there is no column. -/
def Expression.colouredFieldwork : Expression :=
  .logical .and (.comparison "genus" .eq "Conus") (.comparison "colour" .eq "red")

/-- The genus and the samples are left behind, and this is noticed. -/
theorem Draft.failed_visit_unnoticed_iff_fieldwork :
    (Scope.fieldwork.emptyDraft.visit .fieldwork .colouredFieldwork).1 =
        .error (.unknownColumn "colour") ∧
      (Scope.fieldwork.emptyDraft.visit .fieldwork .colouredFieldwork).2.params.values = ["Conus"] ∧
      (Scope.fieldwork.emptyDraft.visit .fieldwork .colouredFieldwork).2.joins.required =
        ["Sample"] ∧
      ¬ Scope.fieldwork.Unnoticed .colouredFieldwork ∧
      Scope.fieldwork.Unnoticed (.comparison "colour" .eq "red") := by
  have hscope : Schema.fieldwork.scope .declarationOrder "Event" = .ok .fieldwork := rfl
  have hfail : (Scope.fieldwork.emptyDraft.visit .fieldwork .colouredFieldwork).1 =
      .error (.unknownColumn "colour") := rfl
  have hfail' : (Scope.fieldwork.emptyDraft.visit .fieldwork (.comparison "colour" .eq "red")).1 =
      .error (.unknownColumn "colour") := rfl
  have hstart := reachable_emptyDraft .fieldwork
  obtain ⟨-, hiff⟩ := failed_visit_unnoticed_iff hscope hstart hfail
  obtain ⟨-, hiff'⟩ := failed_visit_unnoticed_iff hscope hstart hfail'
  refine ⟨hfail, rfl, rfl, ?_, hiff'.mpr ⟨rfl, rfl, rfl⟩⟩
  intro hunnoticed
  exact absurd (hiff.mp hunnoticed).2.1 (List.cons_ne_nil _ _)

end EntityQuery
