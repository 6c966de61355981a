import Mathlib.Computability.StateTransition
import EntityQuery.Proofs.Hierarchy.Cycles

/-!
# The search with an explicit stack

A topological sort is usually written without recursion: a machine that looks at the top of a stack.
An entity that is seen for the first time stays there and its undiscovered children are stacked
upon it; when it is seen again it is finished. Afterwards the finished entities are walked through,
the last one first, for a parent that has not come yet.

With distinct names the machine does what the sweeps do. A name is put onto the stack by its only
parent, so it is not discovered meanwhile, and what stands below it on the stack does not matter to
what happens above. One visit of the sweep is therefore one run of the machine.
-/

namespace EntityQuery

open StateTransition

/-! ## §1 The machine -/

/-- A state of the search. -/
structure Search where
  /-- The names to start from that were not looked at yet. -/
  waiting : List String
  /-- The names on the stack, its top first. -/
  stack : List String
  discovered : List String
  /-- The names that are finished, the last one first. -/
  finished : List String

namespace Search

def start (es : List Entity) : Search :=
  ⟨es.map (·.name), [], [], []⟩

/-- Put the undiscovered children of a name onto the stack, the child that was declared last before
the others. -/
def push (es : List Entity) (discovered : List String) (name : String) (stack : List String) :
    List String :=
  (childNames es name).reverse.foldl
    (fun stack child => if child ∈ discovered then stack else child :: stack) stack

/-- One step of the search; it halts when nothing is waiting and the stack is empty. -/
def next? (es : List Entity) : Search → Option Search
  | ⟨[], [], _, _⟩ => none
  | ⟨name :: waiting, [], discovered, finished⟩ =>
    if name ∈ discovered then some ⟨waiting, [], discovered, finished⟩
    else some ⟨waiting, [name], discovered, finished⟩
  | ⟨waiting, name :: below, discovered, finished⟩ =>
    if name ∈ discovered then
      some ⟨waiting, below, discovered, if name ∈ finished then finished else name :: finished⟩
    else
      some ⟨waiting, push es (name :: discovered) name (name :: below), name :: discovered,
        finished⟩

/-- Walk through names and discover each of them: the first parent that was not discovered with its
child or before it. -/
def undiscoveredParent? (es : List Entity) :
    (discovered : List String) → List String → Option String
  | _, [] => none
  | discovered, name :: others =>
    if name ∈ discovered then undiscoveredParent? es discovered others
    else
      match parentName? es name with
      | some parent =>
        if parent ∈ name :: discovered then undiscoveredParent? es (name :: discovered) others
        else some parent
      | none => undiscoveredParent? es (name :: discovered) others

/-- The search comes to an end, and the walk through what it finished comes upon the name. -/
def Reports (es : List Entity) (name : String) : Prop :=
  ∃ last ∈ eval (next? es) (start es), undiscoveredParent? es [] last.finished = some name

/-! ## §2 What is put onto the stack -/

variable {es : List Entity}

theorem push_eq_append (discovered : List String) (name : String) (stack : List String) :
    push es discovered name stack = (childNames es name).filter (· ∉ discovered) ++ stack := by
  rw [push, List.foldl_reverse]
  induction childNames es name with
  | nil => rfl
  -- stacked in reverse and each upon the others, the children lie in their order
  | cons child others ih =>
    rw [List.foldr_cons, ih]
    by_cases hchild : child ∈ discovered <;> simp [hchild]

theorem nodup_childNames (hnodup : (es.map (·.name)).Nodup) (name : String) :
    (childNames es name).Nodup :=
  hnodup.sublist (List.filter_sublist.map _)

end Search

/-! ## §3 What a visit enters -/

namespace Sweep

variable {es : List Entity}

theorem visit_of_mem {fuel : Nat} {sweep : Sweep} {name : String} (h : name ∈ sweep.entered) :
    visit es fuel sweep name = sweep := by
  cases fuel with
  | zero => rfl
  | succ fuel => exact if_pos h

/-- Names that were entered before need not be visited. -/
theorem foldl_visit_filter {fuel : Nat} {entered : List String} (names : List String)
    (sweep : Sweep) (h : entered ⊆ sweep.entered) :
    names.foldl (visit es fuel) sweep =
      (names.filter (· ∉ entered)).foldl (visit es fuel) sweep := by
  -- a visit of a name that was entered changes nothing, so it may be dropped from the list
  induction names generalizing sweep with
  | nil => rfl
  | cons first others ih =>
    by_cases hfirst : first ∈ entered
    · simp only [List.foldl_cons, List.filter_cons, hfirst, not_true_eq_false, decide_false,
        Bool.false_eq_true, if_false, visit_of_mem (h hfirst)]
      exact ih sweep h
    · simp only [List.foldl_cons, List.filter_cons, hfirst, not_false_eq_true, decide_true,
        if_true]
      exact ih _ fun name hname => (continues_visit fuel sweep first).entered name (h hname)

/-- A name is entered because it is visited or because its parent is entered. -/
def EnteredBelow (es : List Entity) (sweep later : Sweep) (names : List String) : Prop :=
  ∀ other ∈ later.entered, other ∈ sweep.entered ∨ other ∈ names ∨
    ∃ parent, parent ∉ sweep.entered ∧ ParentLink es parent other

theorem enteredBelow_foldl {fuel : Nat}
    (hvisit : ∀ sweep name, EnteredBelow es sweep (visit es fuel sweep name) [name])
    (names : List String) (sweep : Sweep) :
    EnteredBelow es sweep (names.foldl (visit es fuel) sweep) names := by
  induction names generalizing sweep with
  | nil => exact fun other hother => .inl hother
  | cons first others ih =>
    intro other hother
    rcases ih (visit es fuel sweep first) other hother with hother | hother | ⟨p, hp, hlink⟩
    · -- what the first visit entered counts as visited or as below an entered parent
      refine (hvisit sweep first other hother).imp_right (Or.imp_left fun hsame => ?_)
      exact List.mem_cons.mpr (.inl (List.mem_singleton.mp hsame))
    · exact .inr (.inl (List.mem_cons_of_mem _ hother))
    · have hnew := fun hmem => hp ((continues_visit fuel sweep first).entered p hmem)
      exact .inr (.inr ⟨p, hnew, hlink⟩)

theorem enteredBelow_visit (fuel : Nat) :
    ∀ sweep name, EnteredBelow es sweep (visit es fuel sweep name) [name] := by
  induction fuel with
  | zero => exact fun sweep name other hother => .inl hother
  | succ fuel ih =>
    intro sweep name other hother
    unfold visit at hother
    split at hother
    · exact .inl hother
    · rename_i hnew
      rcases enteredBelow_foldl ih (childNames es name)
        -- the children are visited from the sweep that has entered the name itself
        { sweep with entered := name :: sweep.entered } other hother with hother | hother | hother
      · exact (List.mem_cons.mp hother).symm.imp_right (Or.inl ∘ List.mem_singleton.mpr)
      · exact .inr (.inr ⟨name, hnew, mem_childNames.mp hother⟩)
      · obtain ⟨parent, hparent, hlink⟩ := hother
        exact .inr (.inr ⟨parent, fun hmem => hparent (List.mem_cons_of_mem _ hmem), hlink⟩)

/-! ## §4 A visit is a run of the machine -/

/-- The state of the machine that has done what a sweep has done. -/
def toSearch (sweep : Sweep) (waiting stack : List String) : Search :=
  ⟨waiting, stack, sweep.entered, sweep.left⟩

/-- If each single name is taken from the stack by its visit, children of one parent that lie on
the stack are taken from it by their visits. -/
theorem reaches_foldl (hnodup : (es.map (·.name)).Nodup) {fuel : Nat}
    (hvisit : ∀ sweep name, Ready es fuel sweep [name] → name ∉ sweep.entered →
      ∀ waiting below, Reaches (Search.next? es) (sweep.toSearch waiting (name :: below))
        ((visit es fuel sweep name).toSearch waiting below))
    {parent : String} (names : List String) (hchildren : ∀ name ∈ names, ParentLink es parent name)
    (hdistinct : names.Nodup) (sweep : Sweep) (hready : Ready es fuel sweep names)
    (hparent : parent ∈ sweep.entered) (hnew : ∀ name ∈ names, name ∉ sweep.entered)
    (waiting below : List String) :
    Reaches (Search.next? es) (sweep.toSearch waiting (names ++ below))
      ((names.foldl (visit es fuel) sweep).toSearch waiting below) := by
  induction names generalizing sweep with
  | nil => exact .refl
  | cons first others ih =>
    obtain ⟨hfirst, hothers⟩ := List.nodup_cons.mp hdistinct
    -- the others wait on the stack below the first, which its visit does not notice
    have hrun := hvisit sweep first hready.head (hnew first List.mem_cons_self) waiting
      (others ++ below)
    have hadvances := (advances_visit fuel sweep first hready.head).1
    refine hrun.trans (ih (fun name hname => hchildren name (List.mem_cons_of_mem _ hname)) hothers
      (visit es fuel sweep first) (hready.tail hadvances) ?_ ?_)
    · exact hadvances.continues.entered parent hparent
    · -- the only parent of the others was entered before, so the visit does not come to them
      intro name hname hentered
      have hmem := List.mem_cons_of_mem first hname
      rcases enteredBelow_visit fuel sweep first name hentered with hold | hsame | ⟨p, hp, hlink⟩
      · exact hnew name hmem hold
      · exact hfirst (List.mem_singleton.mp hsame ▸ hname)
      · have hother := (parentName?_eq_some_iff hnodup).mpr hlink
        have hsame := (parentName?_eq_some_iff hnodup).mpr (hchildren name hmem)
        exact hp (Option.some.inj (hsame.symm.trans hother) ▸ hparent)

/-- A visit takes its name from the stack. -/
theorem reaches_visit (hnodup : (es.map (·.name)).Nodup) (fuel : Nat) :
    ∀ sweep name, Ready es fuel sweep [name] → name ∉ sweep.entered →
      ∀ waiting below, Reaches (Search.next? es) (sweep.toSearch waiting (name :: below))
        ((visit es fuel sweep name).toSearch waiting below) := by
  induction fuel with
  | zero =>
    intro sweep name hready hnew
    -- without fuel all declared names would have been entered, this one too
    obtain ⟨_, hfuel⟩ := hready.exists_fuel hnew
    exact absurd hfuel (by simp)
  | succ fuel ih =>
    intro sweep name hready hnew waiting below
    -- the machine discovers the name, works off its children and then meets the name again
    set entered : Sweep := { sweep with entered := name :: sweep.entered }
    set children := (childNames es name).filter (· ∉ name :: sweep.entered)
    set done := children.foldl (visit es fuel) entered
    have hvisit : visit es (fuel + 1) sweep name = { done with left := name :: done.left } := by
      rw [visit, if_neg hnew, foldl_visit_filter _ _ (List.Subset.refl _)]
    have hready' : Ready es fuel entered children := hready.enter hnew (List.filter_subset_self _)
    have hdiscover : Reaches (Search.next? es) (sweep.toSearch waiting (name :: below))
        (entered.toSearch waiting (children ++ name :: below)) := by
      refine .single ?_
      rw [toSearch, Search.next?, if_neg hnew, Search.push_eq_append]
      rfl
    have hbelow : Reaches (Search.next? es)
        (entered.toSearch waiting (children ++ name :: below))
        (done.toSearch waiting (name :: below)) := by
      have hlinks : ∀ child ∈ children, ParentLink es name child := fun child hchild =>
        mem_childNames.mp (List.mem_filter.mp hchild).1
      have hunseen : ∀ child ∈ children, child ∉ entered.entered := fun child hchild =>
        of_decide_eq_true (List.mem_filter.mp hchild).2
      exact reaches_foldl hnodup ih children hlinks
        ((Search.nodup_childNames hnodup name).filter _) entered hready' List.mem_cons_self hunseen
        waiting (name :: below)
    have hleave : Reaches (Search.next? es) (done.toSearch waiting (name :: below))
        ((visit es (fuel + 1) sweep name).toSearch waiting below) := by
      have hadvances := (advances_foldl (advances_visit fuel) children entered hready').1
      have hmem : name ∈ done.entered := hadvances.continues.entered name List.mem_cons_self
      -- only what was entered below the name has been finished since, so the name has not
      have hopen : name ∉ done.left := by
        intro hleft
        rcases hadvances.fresh name hleft with hleft | hleft
        · exact hnew (hready.orderly.left_entered hleft)
        · exact hleft List.mem_cons_self
      refine .single ?_
      rw [hvisit, toSearch, Search.next?, if_pos hmem, if_neg hopen]
      rfl
    exact (hdiscover.trans hbelow).trans hleave

/-- The machine comes to the end of the names that are waiting, as the sweep does. -/
theorem reaches_waiting (hnodup : (es.map (·.name)).Nodup) {fuel : Nat} (names : List String)
    (sweep : Sweep) (hready : Ready es fuel sweep names) :
    Reaches (Search.next? es) (sweep.toSearch names [])
      ((names.foldl (visit es fuel) sweep).toSearch [] []) := by
  induction names generalizing sweep with
  | nil => exact .refl
  | cons first others ih =>
    have hadvances := (advances_visit fuel sweep first hready.head).1
    have hothers := ih (visit es fuel sweep first) (hready.tail hadvances)
    refine .trans ?_ hothers
    -- a waiting name that was discovered is passed over, any other is put onto the empty stack
    by_cases hfirst : first ∈ sweep.entered
    · rw [visit_of_mem hfirst]
      exact .single (by rw [toSearch, Search.next?, if_pos hfirst]; rfl)
    · refine .head ?_ (reaches_visit hnodup fuel sweep first hready.head hfirst others [])
      rw [toSearch, Search.next?, if_neg hfirst]
      rfl

end Sweep

/-! ## §5 The report -/

namespace Search

variable {es : List Entity}

/-- The search comes to an end, and has finished the names in the order of the sweep. -/
theorem exists_mem_eval (hnodup : (es.map (·.name)).Nodup) :
    ∃ last ∈ eval (next? es) (start es), last.finished = sweepOrder es := by
  have hrun := Sweep.reaches_waiting hnodup (es.map (·.name)) {} (Sweep.Ready.start es)
  exact ⟨_, mem_eval.mpr ⟨hrun, rfl⟩, rfl⟩

/-- The walk finds what the second sweep finds, if no name comes twice and none is its own
parent. -/
theorem undiscoveredParent?_eq_lateParent? (hself : ∀ name, parentName? es name ≠ some name)
    {discovered names : List String} (hnodup : names.Nodup)
    (hnew : ∀ name ∈ names, name ∉ discovered) :
    undiscoveredParent? es discovered names = lateParent? es discovered names := by
  induction names generalizing discovered with
  | nil => rfl
  | cons first others ih =>
    obtain ⟨hfirst, hothers⟩ := List.nodup_cons.mp hnodup
    -- the names that were walked through and the others have nothing in common
    have hnew' : ∀ name ∈ others, name ∉ first :: discovered := by
      intro name hname
      rw [List.mem_cons, not_or]
      exact ⟨fun hsame => hfirst (hsame ▸ hname), hnew name (List.mem_cons_of_mem _ hname)⟩
    have hrest := ih hothers hnew'
    rw [undiscoveredParent?, if_neg (hnew first List.mem_cons_self), lateParent?, hrest]
    cases hparent : parentName? es first with
    | none => rfl
    | some parent =>
      have hne : parent ≠ first := fun hsame => hself first (hsame ▸ hparent)
      simp [hne]

/-- What the sweeps find, the search reports. -/
theorem reports_of_cycle? (hnodup : (es.map (·.name)).Nodup)
    (hself : ∀ e ∈ es, e.parent ≠ some e.name) {name : String} (h : cycle? es = some name) :
    Reports es name := by
  obtain ⟨last, hlast, hfinished⟩ := exists_mem_eval hnodup
  refine ⟨last, hlast, ?_⟩
  have hparent : ∀ name, parentName? es name ≠ some name := by
    intro name hname
    obtain ⟨e, he, rfl, hparent⟩ := parentLink_of_parentName? hname
    exact hself e he hparent
  rw [hfinished, undiscoveredParent?_eq_lateParent? hparent (childrenLast_sweepOrder es).2
    (fun _ _ => List.not_mem_nil)]
  exact h

end Search

end EntityQuery
