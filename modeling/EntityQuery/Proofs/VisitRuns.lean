import EntityQuery.Proofs.BoundLiterals
import EntityQuery.Proofs.FailedVisits
import EntityQuery.Proofs.RepeatedVisits

/-!
# Placeholders after runs of visits

A run of visits goes on after errors. A visit that fails may leave values behind that no placeholder
stands for, and these take up numbers. So the numbers in the WHERE clause may have gaps. They still
rise from left to right, and each stands for the literal that it was given to, since values are only
ever added at the end.

A step of a run is a visit, which does one of two things (`Draft.visit_cases`); what the steps have
in common is carried along the run by induction.
-/

namespace EntityQuery

open Sql (Condition Lexeme Test)

/-! ## §1 Fragments -/

/-- The numbers in a condition from left to right. -/
def Sql.Condition.numbers (c : Condition) : List Nat :=
  c.formula.atoms.flatMap Test.values

namespace Draft

/-- The condition that a visit adds to a draft: there is none if it fails, or if the expression
restricts nothing. -/
def fragment? (d : Draft) (scope : Scope) (e : Expression) : Option Condition :=
  match (Drafting.outcome (Drafting.condition scope e) d).1 with
  | .ok c => c
  | .error _ => none

/-- The conditions that the visits of a run add, each with its expression. -/
def fragments (d : Draft) (scope : Scope) : List Expression → List (Expression × Condition)
  | [] => []
  | e :: es => (d.fragment? scope e).toList.map (e, ·) ++ (d.visit scope e).2.fragments scope es

/-- A visit succeeds and adds the condition of its expression, or it fails, leaves the condition of
the draft alone and may have added values. -/
theorem visit_cases {scope : Scope} {d : Draft} (hroot : d.joins.root = scope.root)
    (e : Expression) :
    (∃ r d₁, Writes scope d e r d₁ ∧ d.fragment? scope e = r ∧ d.visit scope e =
        (.ok (), { d₁ with condition := Drafting.combine .and d.condition r })) ∨
      ∃ error d₁, d.fragment? scope e = none ∧ d.visit scope e = (.error error, d₁) ∧
        d.params.values <+: d₁.params.values ∧ d₁.condition = d.condition := by
  have htop := (OnTop.emptyDraft hroot).visit scope e
  rw [visit_eq d] at htop
  rw [fragment?, visit_eq d]
  cases houtcome : Drafting.outcome (Drafting.condition scope e) d with
  | mk result d₁ =>
    rw [houtcome] at htop
    cases result with
    | ok r =>
      have hwrites : Writes scope d e r d₁ := Drafting.Steps.writes houtcome
      refine .inl ⟨r, d₁, hwrites, rfl, ?_⟩
      rw [← hwrites.condition_eq]
    | error error =>
      -- on top of the draft there is what the visit leaves on an empty one
      have hleft := htop.2 error htop.1.symm
      refine .inr ⟨error, d₁, rfl, rfl, ?_, hleft.condition⟩
      exact hleft.values ▸ List.prefix_append _ _

theorem root_visit {scope : Scope} {d : Draft} (hroot : d.joins.root = scope.root)
    (e : Expression) : (d.visit scope e).2.joins.root = scope.root :=
  (kept_root scope.schema scope.root).visit hroot e

/-! ## §2 Runs -/

section Runs

variable {scope : Scope} {d : Draft}

theorem prefix_visit (hroot : d.joins.root = scope.root) (e : Expression) :
    d.params.values <+: (d.visit scope e).2.params.values := by
  -- a successful visit adds the literals of its expression, a failed one the values bound so far
  rcases visit_cases hroot e with ⟨r, d₁, hwrites, -, hvisit⟩ | ⟨error, d₁, -, hvisit, hprefix, -⟩
  · rw [hvisit, hwrites.values_params]
    exact List.prefix_append _ _
  · rwa [hvisit]

/-- Values are only added at the end. -/
theorem prefix_visits (hroot : d.joins.root = scope.root) (es : List Expression) :
    d.params.values <+: (d.visits scope es).2.params.values := by
  induction es generalizing d with
  | nil => exact List.prefix_refl _
  | cons e es ih => exact (prefix_visit hroot e).trans (ih (root_visit hroot e))

/-- The condition of a draft is made of the fragments that were added to it. -/
theorem condition_visits (hroot : d.joins.root = scope.root) (es : List Expression) :
    (d.visits scope es).2.condition =
      Condition.joined d.condition ((d.fragments scope es).map (·.2)) := by
  -- the base of the induction is any draft of the root, as the first visit leads to another one
  induction es generalizing d with
  | nil => rfl
  | cons e es ih =>
    rw [visits, ih (root_visit hroot e), fragments, List.map_append]
    rcases visit_cases hroot e with ⟨r, d₁, -, hfragment, hvisit⟩ |
      ⟨error, d₁, hfragment, hvisit, -, hcondition⟩
    · rw [hfragment, hvisit]
      -- the first fragment, if there is one, is joined to the condition as the visit joins it
      cases r with
      | none => cases d.condition <;> rfl
      | some c => rfl
    · rw [hfragment, hvisit, hcondition]
      rfl

/-- The fragments are those of the visits that succeed, of expressions that restrict the rows. -/
theorem expressions_fragments (hroot : d.joins.root = scope.root) (es : List Expression) :
    (d.fragments scope es).map (·.1) =
      ((es.zip (d.visits scope es).1).filter fun visit =>
        visit.2.isOk && visit.1.restricts).map (·.1) := by
  induction es generalizing d with
  | nil => rfl
  | cons e es ih =>
    rw [fragments, List.map_append, ih (root_visit hroot e), visits, List.zip_cons_cons,
      List.filter_cons]
    rcases visit_cases hroot e with ⟨r, d₁, hwrites, hfragment, hvisit⟩ |
      ⟨error, d₁, hfragment, hvisit, -, -⟩
    · -- there is a fragment exactly if the expression restricts the rows
      have hsome := hwrites.isSome_eq
      rw [hfragment, hvisit, ← hsome]
      cases r <;> rfl
    · rw [hfragment, hvisit]
      rfl

/-- A fragment is what a visit has arrived at, whose values are there to the end. -/
theorem exists_writes_of_mem_fragments (hroot : d.joins.root = scope.root) {es : List Expression}
    {e : Expression} {c : Condition} (h : (e, c) ∈ d.fragments scope es) :
    ∃ d₁ d₂, Writes scope d₁ e (some c) d₂ ∧
      d₂.params.values <+: (d.visits scope es).2.params.values := by
  induction es generalizing d with
  | nil => exact absurd h List.not_mem_nil
  | cons first es ih =>
    rw [fragments, List.mem_append] at h
    rcases h with h | h
    · -- the fragment is that of the first visit, or it comes from a later one
      obtain ⟨c', hc, heq⟩ := List.mem_map.mp h
      obtain ⟨rfl, rfl⟩ := Prod.mk.inj heq
      rw [Option.mem_toList] at hc
      rcases visit_cases hroot first with ⟨r, d₁, hwrites, hfragment, hvisit⟩ |
        ⟨error, d₁, hfragment, -⟩
      · obtain rfl : r = some c' := hfragment.symm.trans hc
        have hrest := prefix_visits (root_visit hroot first) es
        rw [hvisit] at hrest
        refine ⟨d, d₁, hwrites, ?_⟩
        rwa [visits, hvisit]
      · exact absurd (hfragment.symm.trans hc) (by simp)
    · exact ih (root_visit hroot first) h

/-- A visit uses the numbers of the values that it binds, each once and in their order, or none of
them if it fails. -/
theorem numbers_fragment? (hroot : d.joins.root = scope.root) (e : Expression) :
    ∃ added, (d.visit scope e).2.params.values = d.params.values ++ added ∧
      ((Condition.tests (d.fragment? scope e)).flatMap Test.values).Sublist
        (List.range' d.params.next added.length) ∧
      ((d.visit scope e).1 = .ok () → (Condition.tests (d.fragment? scope e)).flatMap Test.values =
        List.range' d.params.next added.length) := by
  -- a failed visit has no fragment, and so the empty list of numbers
  rcases visit_cases hroot e with ⟨r, d₁, hwrites, hfragment, hvisit⟩ |
    ⟨error, d₁, hfragment, hvisit, ⟨added, hadded⟩, -⟩
  · have hnumbers := hwrites.flatMap_values_tests
    rw [hfragment, hvisit, hnumbers]
    exact ⟨e.literals scope, hwrites.values_params, List.Sublist.refl _, fun _ => rfl⟩
  · rw [hfragment, hvisit]
    exact ⟨added, hadded.symm, List.nil_sublist _, fun herror => absurd herror (by simp)⟩

theorem numbers_fragments_cons (d : Draft) (scope : Scope) (e : Expression)
    (es : List Expression) :
    (d.fragments scope (e :: es)).flatMap (·.2.numbers) =
      (Condition.tests (d.fragment? scope e)).flatMap Test.values ++
        ((d.visit scope e).2.fragments scope es).flatMap (·.2.numbers) := by
  rw [fragments, List.flatMap_append]
  cases d.fragment? scope e <;> simp [Condition.tests, Condition.numbers]

/-- Fragments use numbers of values in their order. If no visit fails, they use all of them. -/
theorem numbers_fragments (hroot : d.joins.root = scope.root) (es : List Expression) :
    ∃ added, (d.visits scope es).2.params.values = d.params.values ++ added ∧
      ((d.fragments scope es).flatMap (·.2.numbers)).Sublist
        (List.range' d.params.next added.length) ∧
      ((∀ r ∈ (d.visits scope es).1, r = .ok ()) →
        (d.fragments scope es).flatMap (·.2.numbers) =
          List.range' d.params.next added.length) := by
  induction es generalizing d with
  | nil => exact ⟨[], (List.append_nil _).symm, List.Sublist.refl _, fun _ => rfl⟩
  | cons e es ih =>
    obtain ⟨first, hfirst, hsublist, hall⟩ := numbers_fragment? hroot e
    obtain ⟨others, hothers, hsublist', hall'⟩ := ih (root_visit hroot e)
    -- the numbers of the other visits begin where those of the first one end
    have hnext : (d.visit scope e).2.params.next = d.params.next + first.length := by
      rw [Sql.Params.next, Sql.Params.size, hfirst, List.length_append, Sql.Params.next,
        Sql.Params.size, Nat.add_right_comm]
    rw [hnext] at hsublist' hall'
    rw [numbers_fragments_cons]
    refine ⟨first ++ others, ?_, ?_, ?_⟩
    · rw [visits, hothers, hfirst, List.append_assoc]
    · rw [List.length_append, ← List.range'_append_1]
      exact hsublist.append hsublist'
    · intro hok
      obtain ⟨hok, hoks⟩ := List.forall_mem_cons.mp hok
      rw [List.length_append, ← List.range'_append_1, hall hok, hall' hoks]

end Runs

end Draft

/-! ## §3 The WHERE clause of a run -/

namespace Sql

theorem separated_append_cons (separator first second : List Token) (others : List (List Token)) :
    separated separator ((first ++ separator ++ second) :: others) =
      separated separator (first :: second :: others) := by
  cases others <;> simp [separated]

/-- Conditions that were added one after the other are written with `AND` between them. -/
theorem Condition.tokens_joined (cs : List Condition) :
    (joined none cs).elim [] tokens = joinedBy (.keyword .AND) (cs.map tokens) := by
  cases cs with
  | nil => rfl
  | cons first others =>
    have hjoined : joined none (first :: others) = joined (some first) others := rfl
    rw [hjoined, joined_some, Option.elim_some]
    -- the conjunction is nested to the left, so the first condition grows with each step
    induction others generalizing first with
    | nil => rfl
    | cons second others ih =>
      rw [List.foldl_cons, ih (first.and second) rfl]
      exact separated_append_cons _ _ _ _

theorem Condition.tests_joined (cs : List Condition) :
    tests (joined none cs) = cs.flatMap (·.formula.atoms) := by
  cases cs with
  | nil => rfl
  | cons first others =>
    have hjoined : joined none (first :: others) = joined (some first) others := rfl
    -- the atoms of a conjunction are those of its parts, and parts are joined by `and` alone
    rw [hjoined, joined_some, tests, Option.elim_some, formula_foldl_and, Formula.atoms_foldl_and,
      List.flatMap_map, List.flatMap_cons]

end Sql

namespace Draft

variable {s : Schema} {policy : ColumnPolicy} {root : String} {scope : Scope}

theorem condition_run (scope : Scope) (es : List Expression) :
    (scope.emptyDraft.visits scope es).2.condition =
      Condition.joined none ((scope.emptyDraft.fragments scope es).map (·.2)) :=
  condition_visits rfl es

/-- The tests in the condition of a run are those of its fragments. -/
theorem tests_visits (scope : Scope) (es : List Expression) :
    Condition.tests (scope.emptyDraft.visits scope es).2.condition =
      (scope.emptyDraft.fragments scope es).flatMap (·.2.formula.atoms) := by
  rw [condition_run, Condition.tests_joined, List.flatMap_map]

theorem spelled_visits (hscope : s.scope policy root = .ok scope) (es : List Expression) :
    (scope.emptyDraft.visits scope es).2.Spelled scope := by
  obtain ⟨rfl, rfl, hdeclared⟩ := Schema.of_scope hscope
  have hroot : isIdentifier scope.root := hdeclared.isIdentifier _ List.mem_cons_self
  have hsound : JoinRequest.Sound scope.schema (scope.emptyDraft.visits scope es).2.joins :=
    kept_visits (JoinRequest.kept_sound scope.schema) (.start hdeclared) es
  refine ⟨Reachable.root_eq ⟨es, rfl⟩, hroot, ?_, ?_⟩
  · exact fun name hname => hsound.required.isIdentifier name (hsound.selected hname)
  · intro c hc t ht
    -- a test of the condition belongs to a fragment, and this was written by a visit
    have htests : t ∈ Condition.tests (scope.emptyDraft.visits scope es).2.condition := by
      rw [hc]
      exact ht
    rw [tests_visits] at htests
    obtain ⟨⟨e, c'⟩, hfragment, ht⟩ := List.mem_flatMap.mp htests
    obtain ⟨d₁, d₂, hwrites, -⟩ := exists_writes_of_mem_fragments rfl hfragment
    exact hwrites.spelled hroot c' rfl t ht

/-- A fragment stands for its expression, with the values that are bound in the end. -/
theorem meaning_of_mem_fragments {es : List Expression} {e : Expression} {c : Condition}
    (h : (e, c) ∈ scope.emptyDraft.fragments scope es) :
    some (c.meaning (scope.emptyDraft.visits scope es).2.params) = e.formula scope ∧
      c.numbers.map (scope.emptyDraft.visits scope es).2.params.valueOf = e.literals scope := by
  obtain ⟨d₁, d₂, hwrites, hprefix⟩ := exists_writes_of_mem_fragments rfl h
  refine ⟨hwrites.meaning_eq hprefix, ?_⟩
  -- the numbers start where the visit started, and its values are still there in the end
  have hnumbers : c.numbers = List.range' d₁.params.next (e.literals scope).length :=
    hwrites.flatMap_values_tests
  rw [hnumbers]
  exact Sql.Params.map_valueOf_of_prefix (hwrites.values_params ▸ hprefix)

/-- The statement of a run of visits, of which any may fail. The keys of its values are counted
through from one. The WHERE clause holds the fragments of the successful visits with `AND` between
them, within what the restriction to public expeditions adds. The numbers of its placeholders rise
from left to right and are keys of values, namely of the literals of the expressions that the
fragments stand for; and if no visit has failed, each key has its placeholder. -/
theorem visits_number_placeholders (hscope : s.scope policy root = .ok scope)
    {es : List Expression} {outcomes : List (Except QueryError Unit)} {d : Draft}
    (hvisits : scope.emptyDraft.visits scope es = (outcomes, d)) {network : Nat}
    {publicOnly : Bool} {p : Pagination} {prepared : Sql.Prepared}
    (hprepare : d.prepare scope network publicOnly p = .ok prepared) :
    ∃ q lexemes fragments, d.query scope network publicOnly p = .ok q ∧
      prepared = ⟨q.text, d.params⟩ ∧
      prepared.params.entries.map (·.1) =
        (List.range' 1 prepared.params.size).map toString ∧
      q.filter = (d.filter publicOnly).elim [] Condition.tokens ∧
      d.condition.elim [] Condition.tokens =
        Sql.joinedBy (.keyword .AND) (fragments.map (Condition.tokens ·.2)) ∧
      fragments = scope.emptyDraft.fragments scope es ∧
      fragments.map (·.1) = ((es.zip outcomes).filter fun visit =>
        visit.2.isOk && visit.1.restricts).map (·.1) ∧
      (∀ e c, (e, c) ∈ fragments → some (c.meaning prepared.params) = e.formula scope ∧
        c.numbers.map prepared.params.valueOf = e.literals scope) ∧
      Sql.lex? prepared.text = some lexemes ∧
      lexemes.filterMap Lexeme.placeholder? =
        (fragments.flatMap (·.2.numbers)).map toString ∧
      (fragments.flatMap (·.2.numbers)).Pairwise (· < ·) ∧
      (∀ number ∈ fragments.flatMap (·.2.numbers), number ∈ List.range' 1 prepared.params.size) ∧
      ((∀ r ∈ outcomes, r = .ok ()) →
        fragments.flatMap (·.2.numbers) = List.range' 1 prepared.params.size) := by
  obtain ⟨rfl, rfl⟩ := Prod.mk.inj hvisits.symm
  obtain ⟨q, hquery, rfl⟩ := exists_of_map_eq_ok hprepare
  obtain ⟨steps, rows, hassembles⟩ := exists_assembles hquery
  have hspelled := spelled_visits hscope es
  have hroot : scope.emptyDraft.joins.root = scope.root := rfl
  obtain ⟨added, hvalues, hsublist, hall⟩ := numbers_fragments hroot es
  have hsize : (scope.emptyDraft.visits scope es).2.params.size = added.length :=
    congrArg List.length hvalues
  rw [← hsize] at hsublist hall
  refine ⟨q, _, _, hquery, rfl, Sql.Params.keys_entries _, ?_, ?_, rfl,
    expressions_fragments hroot es, fun e c h => meaning_of_mem_fragments h,
    hassembles.lex?_text hspelled, ?_, ?_, fun number h => hsublist.subset h, hall⟩
  · rw [hassembles.query]
    rfl
  · rw [condition_run, Condition.tokens_joined, List.map_map]
    rfl
  · rw [hassembles.filterMap_placeholder? hspelled.root_eq, tests_visits, List.flatMap_assoc]
    rfl
  · exact List.Pairwise.sublist hsublist List.pairwise_lt_range'

/-- A search for two words, a visit that fails after it has bound a genus, properties of three JSON
columns that have to be there, and a range. -/
def interruptedFieldwork : List Expression :=
  [.search (some "genus") "Conus\t litteratus", .colouredFieldwork,
   .present ["Sample.genus", "year", "expedition.funding", "genus"], .search none "reef",
   .range "year" ">2000"]

/-- The genus of the failed visit keeps its key and has no placeholder. -/
theorem visits_number_placeholders_fieldwork :
    ∃ d prepared lexemes, Scope.fieldwork.emptyDraft.visits .fieldwork interruptedFieldwork =
        ([.ok (), .error (.unknownColumn "colour"), .ok (), .ok (), .ok ()], d) ∧
      d.prepare .fieldwork 1 true {} = .ok prepared ∧
      prepared.params.entries =
        [("1", "Conus & litteratus"), ("2", "Conus & litteratus"), ("3", "Conus"),
          ("4", "urn:'genus"), ("5", "urn:year"), ("6", "funding"), ("7", "reef"),
          ("8", "2000")] ∧
      Sql.lex? prepared.text = some lexemes ∧
      lexemes.filterMap Lexeme.placeholder? = ["1", "2", "4", "5", "6", "7", "8"] := by
  have hscope : Schema.fieldwork.scope .declarationOrder "Event" = .ok .fieldwork := rfl
  have houtcomes : (Scope.fieldwork.emptyDraft.visits .fieldwork interruptedFieldwork).1 =
      [.ok (), .error (.unknownColumn "colour"), .ok (), .ok (), .ok ()] := by
    decide +kernel
  obtain ⟨d, hd⟩ : ∃ d, (Scope.fieldwork.emptyDraft.visits .fieldwork interruptedFieldwork).2 = d :=
    ⟨_, rfl⟩
  have hvisits : Scope.fieldwork.emptyDraft.visits .fieldwork interruptedFieldwork =
      ([.ok (), .error (.unknownColumn "colour"), .ok (), .ok (), .ok ()], d) :=
    Prod.ext_iff.mpr ⟨houtcomes, hd⟩
  obtain ⟨prepared, hprepare⟩ : ∃ prepared, d.prepare .fieldwork 1 true {} = .ok prepared := by
    apply exists_of_isOk
    rw [← hd]
    decide +kernel
  obtain ⟨q, lexemes, fragments, -, rfl, -, -, -, rfl, -, -, hlex, hplaceholders, -⟩ :=
    visits_number_placeholders hscope hvisits hprepare
  refine ⟨d, _, lexemes, hvisits, hprepare, ?_, hlex, hplaceholders.trans ?_⟩
  · show d.params.entries = _
    rw [← hd]
    decide +kernel
  · decide +kernel

end Draft

end EntityQuery
