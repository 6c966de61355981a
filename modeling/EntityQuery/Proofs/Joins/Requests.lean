import EntityQuery.Proofs.Joins.Routes

/-!
# Requests and their plans

A request is made by a sequence of calls, in any order and number. What holds of every request that
is made for entities of a schema is kept by each call (`Sound`). Such a request has a plan if all
its entities are in the tree of the root, and the plan then joins the entities on the paths to them
(`plan_spec`).
-/

namespace EntityQuery

variable {s : Schema}

/-! ## §1 Calls -/

/-- One call on a request. -/
inductive JoinCall
  | require (name : String)
  | select (name : String)
  | requireExpeditions
  deriving DecidableEq, Repr

/-- The entity that a call registers. -/
def JoinCall.entity? : JoinCall → Option String
  | require name | select name => some name
  | requireExpeditions => none

/-- The entities that calls register. -/
def registered (calls : List JoinCall) : List String :=
  calls.filterMap JoinCall.entity?

namespace JoinRequest

def call (r : JoinRequest) : JoinCall → JoinRequest
  | .require name => r.require name
  | .select name => r.select name
  | .requireExpeditions => r.requireExpeditions

/-- The request for a root after some calls. -/
def ofCalls (root : String) (calls : List JoinCall) : JoinRequest :=
  calls.foldl call { root }

@[simp] theorem root_require (r : JoinRequest) (name : String) :
    (r.require name).root = r.root := by
  unfold require
  split <;> rfl

@[simp] theorem root_select (r : JoinRequest) (name : String) : (r.select name).root = r.root := by
  unfold select
  split <;> rfl

theorem mem_required_require (r : JoinRequest) {name other : String} :
    other ∈ (r.require name).required ↔ other ∈ r.required ∨ other ≠ r.root ∧ other = name := by
  unfold require
  split
  · simp_all
  · rw [List.mem_cons]
    grind

/-- A selected entity is required as well. -/
theorem required_select (r : JoinRequest) (name : String) :
    -- selecting differs from requiring in the list of what is shown alone
    (r.select name).required = (r.require name).required := by
  unfold select require
  split <;> rfl

theorem mem_selected_select (r : JoinRequest) {name other : String} :
    other ∈ (r.select name).selected ↔ other ∈ r.selected ∨ other ≠ r.root ∧ other = name := by
  unfold select
  split
  · simp_all
  · rw [List.mem_cons]
    grind

theorem selected_require (r : JoinRequest) (name : String) :
    (r.require name).selected = r.selected := by
  unfold require
  split <;> rfl

/-! ## §2 Sequences of calls -/

section Calls

variable (calls : List JoinCall)

theorem root_foldl_call (r : JoinRequest) : (calls.foldl call r).root = r.root := by
  -- each call leaves the root alone
  induction calls generalizing r with
  | nil => rfl
  | cons first calls ih =>
    rw [List.foldl_cons, ih]
    cases first with
    | require name => exact root_require r name
    | select name => exact root_select r name
    | requireExpeditions => rfl

theorem mem_required_foldl_call (r : JoinRequest) {name : String} :
    name ∈ (calls.foldl call r).required ↔
      name ∈ r.required ∨ name ≠ r.root ∧ name ∈ registered calls := by
  -- on the calls; the first one registers its entity unless that is the root
  induction calls generalizing r with
  | nil => simp [registered]
  | cons first calls ih =>
    rw [List.foldl_cons, ih]
    cases first with
    | require other =>
      rw [call, root_require, mem_required_require]
      simp only [registered, List.filterMap_cons, JoinCall.entity?, List.mem_cons]
      grind
    | select other =>
      rw [call, root_select, required_select, mem_required_require]
      simp only [registered, List.filterMap_cons, JoinCall.entity?, List.mem_cons]
      grind
    | requireExpeditions => rfl

theorem mem_selected_foldl_call (r : JoinRequest) {name : String} :
    name ∈ (calls.foldl call r).selected ↔
      name ∈ r.selected ∨ name ≠ r.root ∧ .select name ∈ calls := by
  -- required entities are not shown, so only selections count
  induction calls generalizing r with
  | nil => simp
  | cons first calls ih =>
    rw [List.foldl_cons, ih]
    cases first with
    | require other =>
      rw [call, root_require, selected_require]
      simp
    | select other =>
      rw [call, root_select, mem_selected_select]
      simp only [List.mem_cons, JoinCall.select.injEq]
      grind
    | requireExpeditions => simp [call, requireExpeditions]

theorem expeditions_foldl_call (r : JoinRequest) :
    (calls.foldl call r).expeditions = (r.expeditions || decide (.requireExpeditions ∈ calls)) := by
  induction calls generalizing r with
  | nil => simp
  | cons first calls ih =>
    rw [List.foldl_cons, ih]
    cases first with
    | require other =>
      have h : (r.require other).expeditions = r.expeditions := by
        unfold require
        split <;> rfl
      simp [call, h]
    | select other =>
      have h : (r.select other).expeditions = r.expeditions := by
        unfold select
        split <;> rfl
      simp [call, h]
    | requireExpeditions => simp [call, requireExpeditions]

variable (root : String) {calls}

@[simp] theorem root_ofCalls : (ofCalls root calls).root = root :=
  root_foldl_call calls _

theorem mem_required_ofCalls {name : String} :
    name ∈ (ofCalls root calls).required ↔ name ≠ root ∧ name ∈ registered calls := by
  rw [ofCalls, mem_required_foldl_call]
  simp

theorem mem_selected_ofCalls {name : String} :
    name ∈ (ofCalls root calls).selected ↔ name ≠ root ∧ .select name ∈ calls := by
  rw [ofCalls, mem_selected_foldl_call]
  simp

theorem expeditions_ofCalls :
    (ofCalls root calls).expeditions = true ↔ .requireExpeditions ∈ calls := by
  rw [ofCalls, expeditions_foldl_call]
  simp

end Calls

/-! ## §3 Requests for entities of a schema -/

/-- What holds of every request that is made for entities of a schema. -/
structure Sound (s : Schema) (r : JoinRequest) : Prop where
  root : s.Declares [r.root]
  required : s.Declares r.required
  selected : r.selected ⊆ r.required
  apart : r.root ∉ r.required

namespace Sound

variable {r : JoinRequest} {name : String}

theorem start {root : String} (h : s.Declares [root]) : Sound s { root } where
  root := h
  required := fun _ hname => absurd hname List.not_mem_nil
  selected := List.Subset.refl _
  apart := List.not_mem_nil

theorem require (h : Sound s r) (hname : s.Declares [name]) : Sound s (r.require name) where
  root := by rw [root_require]; exact h.root
  required other hother := by
    rcases (mem_required_require r).mp hother with hother | ⟨-, rfl⟩
    · exact h.required other hother
    · exact hname other List.mem_cons_self
  selected other hother := by
    rw [selected_require] at hother
    exact (mem_required_require r).mpr (.inl (h.selected hother))
  apart := by
    rw [root_require, mem_required_require]
    exact not_or.mpr ⟨h.apart, fun hself => hself.1 rfl⟩

theorem select (h : Sound s r) (hname : s.Declares [name]) : Sound s (r.select name) where
  root := by rw [root_select]; exact h.root
  required := by rw [required_select]; exact (h.require hname).required
  selected other hother := by
    rw [required_select, mem_required_require]
    exact ((mem_selected_select r).mp hother).imp_left (@h.selected other)
  apart := by
    rw [root_select, required_select, ← root_require r name]
    exact (h.require hname).apart

theorem requireExpeditions (h : Sound s r) : Sound s r.requireExpeditions :=
  ⟨h.root, h.required, h.selected, h.apart⟩

/-- One call keeps a request sound. -/
theorem call (h : Sound s r) {c : JoinCall} (hc : ∀ name ∈ c.entity?, s.Declares [name]) :
    Sound s (r.call c) := by
  cases c with
  | require name => exact h.require (hc name rfl)
  | select name => exact h.select (hc name rfl)
  | requireExpeditions => exact h.requireExpeditions

/-- So does every sequence of calls. -/
theorem foldl_call {calls : List JoinCall} (h : Sound s r)
    (hcalls : s.Declares (registered calls)) : Sound s (calls.foldl JoinRequest.call r) := by
  induction calls generalizing r with
  | nil => exact h
  | cons first calls ih =>
    -- what the calls register is declared, one name for each call
    have hmem : ∀ c ∈ first :: calls, ∀ name ∈ c.entity?, s.Declares [name] := by
      intro c hc name hname
      exact Schema.declares_singleton.mpr (hcalls _ (List.mem_filterMap.mpr ⟨c, hc, hname⟩))
    apply ih (h.call (hmem first List.mem_cons_self))
    intro name hname
    obtain ⟨c, hc, hentity⟩ := List.mem_filterMap.mp hname
    exact hmem c (List.mem_cons_of_mem _ hc) name hentity name List.mem_cons_self

theorem ofCalls {root : String} {calls : List JoinCall} (hroot : s.Declares [root])
    (hcalls : s.Declares (registered calls)) : Sound s (.ofCalls root calls) :=
  (start hroot).foldl_call hcalls

end Sound

/-! ## §4 Plans -/

/-- The steps of a plan, and what its hops are. -/
structure IsPlan (s : Schema) (r : JoinRequest) (hops : List Hop) (steps : List JoinStep) :
    Prop where
  steps : steps = hops.map .entity ++ (r.root :: r.selection s).map .identifiers ++
    (if r.expeditions then [.expeditions r.root] else [])
  sameTree : ∀ target ∈ r.required, s.SameTree r.root target
  once : (hopTables hops).Nodup
  tables : ∀ name, name ∈ hopTables hops ↔
    name ≠ r.root ∧ ∃ target ∈ r.required, s.OnPath r.root target name
  connected : Connected s [r.root] hops
  typed : ∀ hop ∈ hops, RightlyTyped s r hop

/-- A request has a plan, unless one of its entities is in another tree than the root. -/
theorem Sound.plan_spec {r : JoinRequest} (h : Sound s r) :
    match r.plan s with
    | .ok steps => ∃ hops, IsPlan s r hops steps
    | .error error =>
      ∃ target ∈ r.required, error = .unrelatedEntities target r.root ∧
        ¬ s.SameTree r.root target := by
  -- the routes go to the required entities in the order of the schema, which all are declared
  obtain ⟨root, hroot, hname⟩ := h.root r.root List.mem_cons_self
  have htargets : s.Declares (s.inOrder r.required) :=
    fun name hname => h.required name (s.mem_inOrder_iff.mp hname)
  have hroutes := routes_spec hroot hname htargets
  unfold plan
  cases hr : r.routes s (s.inOrder r.required) with
  | error error =>
    rw [hr] at hroutes
    obtain ⟨target, htarget, herror⟩ := hroutes
    exact ⟨target, s.mem_inOrder_iff.mp htarget, herror⟩
  | ok hops =>
    rw [hr] at hroutes
    -- of the hops of all routes, those to tables not yet joined are left
    refine ⟨newHops [r.root] hops, rfl, ?_, nodup_newHops, ?_, connected_newHops hroutes.connected,
      fun hop hhop => hroutes.typed hop (mem_of_mem_newHops hhop)⟩
    · exact fun target htarget => hroutes.sameTree target (s.mem_inOrder_iff.mpr htarget)
    · -- a table is joined by the first hop that leads to it, so none of the names is lost
      intro name
      rw [mem_hopTables_newHops, List.mem_singleton, and_comm]
      refine and_congr_right fun hne => ?_
      rw [hroutes.tables name hne]
      simp only [s.mem_inOrder_iff]

/-- Joins come from a plan. -/
theorem Sound.exists_isPlan {r : JoinRequest} (h : Sound s r) {network : Nat}
    {joins : List Sql.Join} (hok : r.joins s network = .ok joins) :
    ∃ hops steps, IsPlan s r hops steps ∧ joins = steps.map (JoinStep.toJoin network) := by
  have hplan := h.plan_spec
  unfold JoinRequest.joins at hok
  -- without a plan there would be no joins
  cases hsteps : r.plan s with
  | error error =>
    rw [hsteps] at hok
    exact absurd hok (by simp [Except.map])
  | ok steps =>
    rw [hsteps] at hplan hok
    obtain ⟨hops, hplan⟩ := hplan
    exact ⟨hops, steps, hplan, (Except.ok.inj hok).symm⟩

end JoinRequest

end EntityQuery
