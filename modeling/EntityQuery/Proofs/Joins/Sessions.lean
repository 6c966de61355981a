import EntityQuery.Proofs.Joins.Plan

/-!
# Sessions on a request

Calls on a request come in any order and repeat each other, and the joins may be written out in
between. The request then holds what was registered, in lists whose order still tells how it came
about; the plan, however, puts everything in an order of its own. So what a session comes to depends
only on the sets of entities that its calls register, and sessions that have registered the same
cannot be told apart any more (`JoinSession.answers_run_congr`).
-/

namespace EntityQuery

/-! ## §1 What a plan depends on -/

/-- The order of joins depends only on what is there. -/
theorem Schema.inOrder_congr (s : Schema) {names names' : List String}
    (h : ∀ name, name ∈ names ↔ name ∈ names') : s.inOrder names = s.inOrder names' :=
  s.eq_inOrder (s.pairwise_inOrder names) fun name => s.mem_inOrder_iff.trans (h name)

theorem JoinRequest.route_congr (s : Schema) {r r' : JoinRequest} (hroot : r'.root = r.root)
    (hselected : ∀ name, name ∈ r'.selected ↔ name ∈ r.selected) (name : String) :
    r'.route s name = r.route s name := by
  have hdown : r'.hopsDown = r.hopsDown := by
    funext path
    simp only [hopsDown, hselected]
  simp only [route, hroot, hdown]

/-- A plan depends on what was asked for and not on how often or in which order. -/
theorem JoinRequest.plan_congr (s : Schema) {r r' : JoinRequest} (hroot : r'.root = r.root)
    (hrequired : ∀ name, name ∈ r'.required ↔ name ∈ r.required)
    (hselected : ∀ name, name ∈ r'.selected ↔ name ∈ r.selected)
    (hexpeditions : r'.expeditions = r.expeditions) : r'.plan s = r.plan s := by
  have hroutes : ∀ names, r'.routes s names = r.routes s names := by
    intro names
    -- one entity after the other
    induction names with
    | nil => rfl
    | cons name names ih => simp only [routes, route_congr s hroot hselected, ih]
  simp only [plan, selection, s.inOrder_congr hrequired, s.inOrder_congr hselected, hroutes, hroot,
    hexpeditions]

/-- What a request can be asked. -/
structure JoinAnswers where
  /-- The entities added to the result. -/
  selection : List String
  joins : Except QueryError (List Sql.Join)
  text : Except QueryError String

namespace JoinRequest

def answers (r : JoinRequest) (s : Schema) (network : Nat) : JoinAnswers where
  selection := r.selection s
  joins := r.joins s network
  text := r.text s network

/-- Requests that hold the same, be it in another order and number. -/
structure Alike (r r' : JoinRequest) : Prop where
  root : r'.root = r.root
  required : ∀ name, name ∈ r'.required ↔ name ∈ r.required
  selected : ∀ name, name ∈ r'.selected ↔ name ∈ r.selected
  expeditions : r'.expeditions = r.expeditions

variable {r r' : JoinRequest}

theorem Alike.answers_eq (h : Alike r r') (s : Schema) (network : Nat) :
    r'.answers s network = r.answers s network := by
  have hplan := plan_congr s h.root h.required h.selected h.expeditions
  simp only [answers, text, joins, selection, hplan, s.inOrder_congr h.selected]

/-- The same calls keep requests alike. -/
theorem Alike.foldl_call (h : Alike r r') (calls : List JoinCall) :
    Alike (calls.foldl call r) (calls.foldl call r') where
  root := by rw [root_foldl_call, root_foldl_call, h.root]
  required name := by rw [mem_required_foldl_call, mem_required_foldl_call, h.required, h.root]
  selected name := by rw [mem_selected_foldl_call, mem_selected_foldl_call, h.selected, h.root]
  expeditions := by rw [expeditions_foldl_call, expeditions_foldl_call, h.expeditions]

end JoinRequest

/-! ## §2 Sessions -/

/-- One step of a session: a call, or writing out the joins so far. -/
inductive JoinAction
  | call (c : JoinCall)
  | build
  deriving DecidableEq, Repr

/-- The calls among some actions. -/
def callsAmong (actions : List JoinAction) : List JoinCall :=
  actions.filterMap fun
    | .call c => some c
    | .build => none

/-- A request in the making, and the texts that were written out on the way. -/
structure JoinSession where
  request : JoinRequest
  built : List (Except QueryError String) := []

namespace JoinSession

variable (s : Schema) (network : Nat)

def perform (t : JoinSession) : JoinAction → JoinSession
  | .call c => { t with request := t.request.call c }
  | .build => { t with built := t.built ++ [t.request.text s network] }

def run (root : String) (actions : List JoinAction) : JoinSession :=
  actions.foldl (perform s network) { request := { root } }

theorem request_foldl_perform (t : JoinSession) (actions : List JoinAction) :
    (actions.foldl (perform s network) t).request =
      (callsAmong actions).foldl JoinRequest.call t.request := by
  induction actions generalizing t with
  | nil => rfl
  | cons action actions ih =>
    rw [List.foldl_cons, ih]
    -- writing out the joins leaves the request as it is
    cases action <;> rfl

/-- The request of a session is made by its calls alone. -/
theorem request_run (root : String) (actions : List JoinAction) :
    (run s network root actions).request = .ofCalls root (callsAmong actions) :=
  request_foldl_perform s network _ actions

end JoinSession

theorem mem_callsAmong {c : JoinCall} {actions : List JoinAction} :
    c ∈ callsAmong actions ↔ .call c ∈ actions := by
  rw [callsAmong, List.mem_filterMap]
  constructor
  · rintro ⟨action, haction, hc⟩
    cases action with
    | call other => rwa [← Option.some.inj hc]
    | build => exact absurd hc (by simp)
  · exact fun h => ⟨_, h, rfl⟩

/-! ## §3 Equal registrations -/

/-- Actions that register the same entities apart from the root, select the same among them, and
agree on whether the expeditions are joined. -/
structure SameRegistrations (root : String) (actions actions' : List JoinAction) : Prop where
  registered : ∀ name, name ≠ root →
    (name ∈ registered (callsAmong actions') ↔ name ∈ registered (callsAmong actions))
  selected : ∀ name, name ≠ root →
    (.call (.select name) ∈ actions' ↔ .call (.select name) ∈ actions)
  expeditions : .call .requireExpeditions ∈ actions' ↔ .call .requireExpeditions ∈ actions

theorem SameRegistrations.alike {root : String} {actions actions' : List JoinAction}
    (h : SameRegistrations root actions actions') :
    JoinRequest.Alike (.ofCalls root (callsAmong actions))
      (.ofCalls root (callsAmong actions')) := by
  constructor
  · rw [JoinRequest.root_ofCalls, JoinRequest.root_ofCalls]
  · intro name
    rw [JoinRequest.mem_required_ofCalls, JoinRequest.mem_required_ofCalls]
    exact and_congr_right (h.registered name)
  · intro name
    rw [JoinRequest.mem_selected_ofCalls, JoinRequest.mem_selected_ofCalls, mem_callsAmong,
      mem_callsAmong]
    exact and_congr_right (h.selected name)
  · rw [Bool.eq_iff_iff, JoinRequest.expeditions_ofCalls, JoinRequest.expeditions_ofCalls,
      mem_callsAmong, mem_callsAmong]
    exact h.expeditions

namespace JoinSession

variable (s : Schema) (network : Nat)

/-- Sessions with requests alike write out the same texts from then on. -/
theorem exists_built_foldl_perform {t t' : JoinSession}
    (h : JoinRequest.Alike t.request t'.request) (more : List JoinAction) :
    ∃ texts, (more.foldl (perform s network) t).built = t.built ++ texts ∧
      (more.foldl (perform s network) t').built = t'.built ++ texts := by
  -- on the actions that follow; calls keep the requests alike
  induction more generalizing t t' with
  | nil => exact ⟨[], (List.append_nil _).symm, (List.append_nil _).symm⟩
  | cons action more ih =>
    rw [List.foldl_cons, List.foldl_cons]
    cases action with
    | call c =>
      apply ih
      exact h.foldl_call [c]
    | build =>
      -- what is written out is an answer, and the requests stay as they are
      have htext : t'.request.text s network = t.request.text s network :=
        congrArg JoinAnswers.text (h.answers_eq s network)
      have hnext : JoinRequest.Alike (t.perform s network .build).request
          (t'.perform s network .build).request := h
      obtain ⟨texts, hbuilt, hbuilt'⟩ := ih hnext
      refine ⟨t.request.text s network :: texts, ?_, ?_⟩
      · rw [hbuilt]
        simp [perform]
      · rw [hbuilt']
        simp [perform, htext]

/-- Whatever the order and the number of calls, and wherever joins are written out in between, the
same registrations come to the same entities of the result, the same joins and the same text, or
the same error. Whatever the sessions go on with, they write out the same texts from then on. -/
theorem answers_run_congr {root : String} {actions actions' : List JoinAction}
    (h : SameRegistrations root actions actions') :
    (run s network root actions').request.answers s network =
      (run s network root actions).request.answers s network ∧
    ∀ more, ∃ texts,
      (run s network root (actions ++ more)).built = (run s network root actions).built ++ texts ∧
      (run s network root (actions' ++ more)).built =
        (run s network root actions').built ++ texts := by
  have halike : JoinRequest.Alike (run s network root actions).request
      (run s network root actions').request := by
    rw [request_run, request_run]
    exact h.alike
  refine ⟨halike.answers_eq s network, fun more => ?_⟩
  simp only [run, List.foldl_append]
  exact exists_built_foldl_perform s network halike more

end JoinSession

/-- The calls of `surveyCalls` in another order and number, with a look at the joins after most. -/
def surveyActions : List JoinAction :=
  [.call (.require "Tissue"), .build, .call (.select "Photo"), .call (.require "Sample"), .build,
   .call (.select "Photo"), .build, .call .requireExpeditions, .build]

theorem sameRegistrations_survey (root : String) :
    SameRegistrations root (surveyCalls.map .call) surveyActions where
  registered name _ := by
    simp only [registered, callsAmong, surveyCalls, surveyActions, List.map_cons, List.map_nil,
      List.filterMap_cons, List.filterMap_nil, JoinCall.entity?, List.mem_cons]
    grind
  selected name _ := by simp [surveyCalls, surveyActions]
  expeditions := by decide

/-- The requests differ, but not what they come to. From a root in another tree there is no plan,
and both errors name the same one of the entities. -/
theorem JoinSession.answers_run_congr_survey :
    (run .survey 1 "Sample" surveyActions).request ≠
      (run .survey 1 "Sample" (surveyCalls.map .call)).request ∧
    (run .survey 1 "Sample" surveyActions).request.answers .survey 1 =
      (run .survey 1 "Sample" (surveyCalls.map .call)).request.answers .survey 1 ∧
    (run .survey 1 "Site" surveyActions).request.answers .survey 1 =
      (run .survey 1 "Site" (surveyCalls.map .call)).request.answers .survey 1 ∧
    ((run .survey 1 "Site" surveyActions).request.answers .survey 1).text =
      .error (.unrelatedEntities "Photo" "Site") := by
  obtain ⟨hsample, -⟩ := answers_run_congr .survey 1 (sameRegistrations_survey "Sample")
  obtain ⟨hsite, -⟩ := answers_run_congr .survey 1 (sameRegistrations_survey "Site")
  exact ⟨by decide, hsample, hsite, rfl⟩

end EntityQuery
