import EntityQuery.Proofs.Lockstep
import EntityQuery.Proofs.RepeatedVisits

/-!
# Visits one after the other and conjunctions

Expressions may be visited one after the other or as one conjunction. A conjunction joins the
conditions of its sides before the draft sees them, and two visits join them in the draft. Since a
visit neither reads nor writes the condition that the draft has already, it makes no difference when
the condition is written down.
-/

namespace EntityQuery

open Sql (Condition)

/-! ## §1 The condition of a draft -/

/-- The draft with another condition. -/
def Draft.withCondition (d : Draft) (c : Option Condition) : Draft :=
  { d with condition := c }

/-- Drafts that differ in their condition only stay so when the same is added to both. -/
theorem Draft.lockstep_withCondition (s : Schema) (c : Option Condition) :
    Lockstep s 0 fun d d' => d' = d.withCondition c := by
  refine ⟨?_, ?_, ?_, ?_, ?_, ?_⟩
  · rintro d _ rfl
    exact (Nat.zero_add _).symm
  · rintro d _ values rfl
    rfl
  · rintro d _ e - rfl
    rfl
  · rintro d _ e - rfl
    rfl
  · rintro d _ rfl
    rfl
  · rintro d _ rfl
    rfl

namespace Drafting

variable {scope : Scope} {d : Draft}

/-- The condition that an expression stands for is found without a look at that of the draft. -/
theorem attempt_condition_withCondition (scope : Scope) (e : Expression) (d : Draft)
    (c : Option Condition) :
    attempt (condition scope e) (d.withCondition c) =
      (attempt (condition scope e) d).map fun r => (r.1, r.2.withCondition c) := by
  have hfollows := Follows.condition (Draft.lockstep_withCondition scope.schema c) e
  rw [map_moved_zero] at hfollows
  unfold attempt
  rcases hfollows.outcome_cases (d := d) rfl with ⟨a, d₁, d₁', hok, hok', rfl⟩ |
    ⟨error, d₁, d₁', herror, herror', rfl⟩
  · rw [hok, hok']
    rfl
  · rw [herror, herror']
    rfl

/-! ## §2 Visits -/

/-- A visit puts the condition of its expression behind the one that the draft has. -/
theorem attempt_visit_withCondition (scope : Scope) (e : Expression) (d : Draft)
    (c : Option Condition) :
    attempt (visit scope e) (d.withCondition c) = attempt (condition scope e) d >>= fun r =>
      .ok ((), r.2.withCondition (combine .and c r.1)) := by
  rw [visit, attempt_bind, attempt_condition_withCondition]
  cases attempt (condition scope e) d <;> rfl

theorem attempt_visit_of_none (hd : d.condition = none) (e : Expression) :
    attempt (visit scope e) d = attempt (condition scope e) d >>= fun r =>
      .ok ((), r.2.withCondition r.1) := by
  have hnone : d.withCondition none = d := by rw [Draft.withCondition, ← hd]
  have hvisit := attempt_visit_withCondition scope e d none
  rwa [hnone] at hvisit

theorem attempt_condition_and (scope : Scope) (left right : Expression) (d : Draft) :
    attempt (condition scope (.logical .and left right)) d =
      attempt (condition scope left) d >>= fun l =>
        attempt (condition scope right) l.2 >>= fun r => .ok (combine .and l.1 r.1, r.2) := by
  simp only [condition, attempt_bind]
  rfl

/-- A conjunction on a draft without condition is visited like its sides one after the other. -/
theorem attempt_visit_and (hd : d.condition = none) (left right : Expression) :
    attempt (visit scope (.logical .and left right)) d =
      attempt (visit scope left) d >>= fun r => attempt (visit scope right) r.2 := by
  rw [attempt_visit_of_none hd, attempt_visit_of_none hd, attempt_condition_and]
  simp only [bind_assoc]
  congr
  funext l
  -- the right side finds the condition of the left one in the draft
  exact (attempt_visit_withCondition scope right l.2 l.1).symm

end Drafting

/-! ## §3 Runs of visits -/

theorem Draft.visitAll_cons (d : Draft) (scope : Scope) (e : Expression) (es : List Expression) :
    d.visitAll scope (e :: es) =
      Drafting.attempt (Drafting.visit scope e) d >>= fun r => r.2.visitAll scope es := by
  have hvisit : d.visit scope e = Drafting.outcome (Drafting.visit scope e) d := rfl
  rw [visitAll, hvisit, Drafting.attempt]
  obtain ⟨error | _, d'⟩ := Drafting.outcome (Drafting.visit scope e) d <;> rfl

/-- The first two of several expressions may be put into one conjunction. -/
theorem Draft.visitAll_cons_cons {scope : Scope} {d : Draft} (hd : d.condition = none)
    (first second : Expression) (others : List Expression) :
    d.visitAll scope (first :: second :: others) =
      d.visitAll scope (.logical .and first second :: others) := by
  simp only [visitAll_cons, Drafting.attempt_visit_and hd, bind_assoc]

theorem Draft.visitAll_foldl_and {scope : Scope} {d : Draft} (hd : d.condition = none)
    (first : Expression) (others : List Expression) :
    d.visitAll scope (first :: others) =
      d.visitAll scope [others.foldl (.logical .and) first] := by
  -- each step takes the second expression into the conjunction of those before it
  induction others generalizing first with
  | nil => rfl
  | cons second others ih => rw [visitAll_cons_cons hd, ih, List.foldl_cons]

/-- Expressions that are visited one after the other up to the first error, and then assembled,
give the statement, the values or the error of the conjunction that is nested to the left. -/
theorem Scope.compile_foldl_and (scope : Scope) (network : Nat) (publicOnly : Bool)
    (p : Pagination) (first : Expression) (others : List Expression) :
    (scope.emptyDraft.visitAll scope (first :: others) >>= fun d =>
        d.prepare scope network publicOnly p) =
      scope.compile network publicOnly p (others.foldl (.logical .and) first) := by
  have hempty : scope.emptyDraft.condition = none := rfl
  rw [Draft.visitAll_foldl_and hempty, compile_eq, Draft.visitAll_cons, bind_assoc]
  rfl

end EntityQuery
