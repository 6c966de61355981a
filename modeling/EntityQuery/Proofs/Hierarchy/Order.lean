import Mathlib.Data.List.Nodup
import EntityQuery.Proofs.SchemaNames

/-!
# Parents come first

The rules that a schema obeys, taken one by one: its names are distinct, its parents are declared,
and its entities can be put in an order in which each parent comes before its children. The order
is the one that the downward sweep arrives at. How it comes about does not matter, as the second
sweep has checked it; only that no entity is missing from it.
-/

namespace EntityQuery

/-! ## §1 Names and parents -/

/-- Under distinct keys each member is found by its key. -/
theorem find?_key_of_mem {α : Type} {key : α → String} {xs : List α} (hnodup : (xs.map key).Nodup)
    {x : α} (hx : x ∈ xs) : xs.find? (key · == key x) = some x := by
  obtain ⟨found, hfound⟩ : ∃ found, xs.find? (key · == key x) = some found := by
    rw [← Option.isSome_iff_exists, List.find?_isSome]
    exact ⟨x, hx, by simp⟩
  have hkey : key found = key x := by simpa using List.find?_some hfound
  rw [hfound, List.inj_on_of_nodup_map hnodup (List.mem_of_find?_eq_some hfound) hx hkey]

theorem violation?_eq_none_iff {es : List Entity} :
    violation? es = none ↔ firstEntityViolation? [] es = none ∧
      parentViolation? (es.map (·.name)) es = none ∧ cycle? es = none := by
  unfold violation?
  cases firstEntityViolation? [] es <;> cases parentViolation? (es.map (·.name)) es <;> simp

theorem names_of_firstEntityViolation? {earlier : List String} {es : List Entity}
    (h : firstEntityViolation? earlier es = none) :
    (∀ e ∈ es, e.name ∉ earlier) ∧ (es.map (·.name)).Nodup := by
  induction es generalizing earlier with
  | nil => simp
  | cons first others ih =>
    unfold firstEntityViolation? at h
    split at h
    · exact absurd h (by simp)
    · split at h
      · exact absurd h (by simp)
      · rename_i hfirst
        obtain ⟨hothers, hnodup⟩ := ih h
        -- the other names differ from the first one and from those before it
        refine ⟨?_, ?_⟩
        · intro e he
          rcases List.mem_cons.mp he with rfl | he
          · exact hfirst
          · exact fun hmem => hothers e he (List.mem_cons_of_mem _ hmem)
        · rw [List.map_cons, List.nodup_cons, List.mem_map]
          refine ⟨?_, hnodup⟩
          rintro ⟨e, he, heq⟩
          exact hothers e he (heq ▸ List.mem_cons_self)

theorem parent_mem_of_parentViolation? {declared : List String} {es : List Entity}
    (h : parentViolation? declared es = none) :
    ∀ e ∈ es, ∀ parent ∈ e.parent, parent ∈ declared := by
  induction es with
  | nil => simp
  | cons first others ih =>
    unfold parentViolation? at h
    intro e he parent hparent
    split at h
    · rename_i first_parent hfirst
      split at h
      · rcases List.mem_cons.mp he with rfl | he
        · obtain rfl : first_parent = parent := Option.some.inj (hfirst.symm.trans hparent)
          assumption
        · exact ih h e he parent hparent
      · exact absurd h (by simp)
    · rename_i hfirst
      rcases List.mem_cons.mp he with rfl | he
      · exact absurd (hfirst.symm.trans hparent) (by simp)
      · exact ih h e he parent hparent

namespace Schema

variable {s : Schema}

theorem nodup_names (s : Schema) : (s.entities.map (·.name)).Nodup :=
  (names_of_firstEntityViolation? (violation?_eq_none_iff.mp s.valid).1).2

/-- An entity is found by its name. -/
theorem entity?_of_mem {e : Entity} (he : e ∈ s.entities) : s.entity? e.name = some e :=
  find?_key_of_mem s.nodup_names he

theorem exists_parent {e : Entity} (he : e ∈ s.entities) {name : String}
    (hname : e.parent = some name) : ∃ parent ∈ s.entities, parent.name = name := by
  have hdeclared := parent_mem_of_parentViolation? (violation?_eq_none_iff.mp s.valid).2.1
  exact List.mem_map.mp (hdeclared e he name hname)

end Schema

/-! ## §2 The downward sweep -/

namespace Sweep

variable {es : List Entity}

/-- A sweep goes on from another: nothing is forgotten, and what was entered since has been left. -/
structure Continues (sweep later : Sweep) : Prop where
  entered : ∀ name ∈ sweep.entered, name ∈ later.entered
  left : ∀ name ∈ sweep.left, name ∈ later.left
  finished : ∀ name ∈ later.entered, name ∈ sweep.entered ∨ name ∈ later.left

namespace Continues

theorem refl (sweep : Sweep) : Continues sweep sweep :=
  ⟨fun _ => id, fun _ => id, fun _ => .inl⟩

theorem trans {sweep later last : Sweep} (h : Continues sweep later)
    (h' : Continues later last) : Continues sweep last where
  entered name hname := h'.entered name (h.entered name hname)
  left name hname := h'.left name (h.left name hname)
  finished := by
    intro name hname
    rcases h'.finished name hname with hname | hname
    · exact (h.finished name hname).imp_right (h'.left name)
    · exact .inr hname

theorem foldl {visit : Sweep → String → Sweep}
    (h : ∀ sweep name, Continues sweep (visit sweep name)) (sweep : Sweep) (names : List String) :
    Continues sweep (names.foldl visit sweep) := by
  induction names generalizing sweep with
  | nil => exact refl sweep
  | cons name names ih => exact (h sweep name).trans (ih _)

end Continues

theorem continues_visit (fuel : Nat) (sweep : Sweep) (name : String) :
    Continues sweep (visit es fuel sweep name) := by
  induction fuel generalizing sweep name with
  | zero => exact .refl sweep
  | succ fuel ih =>
    unfold visit
    split
    · exact .refl sweep
    · have hbelow := Continues.foldl ih { sweep with entered := name :: sweep.entered }
        (childNames es name)
      -- the entity is entered before what lies below it, and left after it
      refine ⟨?_, ?_, ?_⟩
      · exact fun other hother => hbelow.entered other (List.mem_cons_of_mem _ hother)
      · exact fun other hother => List.mem_cons_of_mem _ (hbelow.left other hother)
      · intro other hother
        rcases hbelow.finished other hother with hother | hother
        · rcases List.mem_cons.mp hother with rfl | hother
          · exact .inr List.mem_cons_self
          · exact .inl hother
        · exact .inr (List.mem_cons_of_mem _ hother)

theorem mem_entered_visit (fuel : Nat) (sweep : Sweep) (name : String) :
    name ∈ (visit es (fuel + 1) sweep name).entered := by
  unfold visit
  split
  · assumption
  · have hbelow := Continues.foldl (@continues_visit es fuel)
      { sweep with entered := name :: sweep.entered } (childNames es name)
    exact hbelow.entered name List.mem_cons_self

theorem mem_entered_foldl_visit (fuel : Nat) (sweep : Sweep) (names : List String) :
    ∀ name ∈ names, name ∈ (names.foldl (visit es (fuel + 1)) sweep).entered := by
  induction names generalizing sweep with
  | nil => simp
  | cons first others ih =>
    intro name hname
    rcases List.mem_cons.mp hname with rfl | hname
    · have hrest := Continues.foldl (@continues_visit es (fuel + 1))
        (visit es (fuel + 1) sweep name) others
      exact hrest.entered name (mem_entered_visit fuel sweep name)
    · exact ih _ name hname

end Sweep

/-- The sweep leaves every entity. -/
theorem mem_sweepOrder {es : List Entity} {e : Entity} (he : e ∈ es) :
    e.name ∈ sweepOrder es := by
  obtain ⟨fuel, hfuel⟩ : ∃ fuel, es.length = fuel + 1 :=
    Nat.exists_eq_add_one.mpr (List.length_pos_of_mem he)
  have hentered := @Sweep.mem_entered_foldl_visit es fuel {} (es.map (·.name)) e.name
    (List.mem_map_of_mem he)
  have hcontinues := Sweep.Continues.foldl (@Sweep.continues_visit es (fuel + 1)) {}
    (es.map (·.name))
  unfold sweepOrder
  rw [hfuel]
  -- nothing was entered before the sweep
  exact (hcontinues.finished e.name hentered).resolve_left List.not_mem_nil

/-! ## §3 The second sweep -/

theorem parent_mem_of_lateParent? {es : List Entity} {earlier names : List String}
    (h : lateParent? es earlier names = none) {before after : List String} {name parent : String}
    (hnames : names = before ++ name :: after) (hparent : parentName? es name = some parent) :
    parent ∈ earlier ∨ parent ∈ before := by
  induction names generalizing earlier before with
  | nil => exact absurd hnames (by simp)
  | cons first others ih =>
    unfold lateParent? at h
    cases before with
    | nil =>
      obtain ⟨rfl, rfl⟩ := List.cons.inj hnames
      rw [hparent] at h
      dsimp only at h
      split at h
      · exact .inl ‹_›
      · exact absurd h (by simp)
    | cons _ before =>
      obtain ⟨rfl, hothers⟩ := List.cons.inj hnames
      have hrest : lateParent? es (first :: earlier) others = none := by
        split at h
        · split at h
          · exact h
          · exact absurd h (by simp)
        · exact h
      -- the first name counts as earlier from here on
      rcases ih hrest hothers with hmem | hmem
      · rcases List.mem_cons.mp hmem with rfl | hmem
        · exact .inr List.mem_cons_self
        · exact .inl hmem
      · exact .inr (List.mem_cons_of_mem _ hmem)

namespace Schema

/-- The place of an entity in an order in which parents come first. -/
def rank (s : Schema) (name : String) : Nat :=
  (sweepOrder s.entities).idxOf name

/-- Each parent comes before its children. -/
theorem rank_parent_lt {s : Schema} {e : Entity} (he : e ∈ s.entities) {parent : String}
    (hparent : e.parent = some parent) : s.rank parent < s.rank e.name := by
  have hmem := mem_sweepOrder he
  have hfound : parentName? s.entities e.name = some parent := by
    have hentity : s.entities.find? (·.name == e.name) = some e := s.entity?_of_mem he
    rw [parentName?, hentity, Option.bind_some, hparent]
  -- before the first place of the child stands its parent
  obtain ⟨before, after, horder, hbefore⟩ := List.eq_append_cons_of_mem hmem
  have hvalid : cycle? s.entities = none := (violation?_eq_none_iff.mp s.valid).2.2
  have hearlier : parent ∈ before :=
    (parent_mem_of_lateParent? hvalid horder hfound).resolve_left List.not_mem_nil
  unfold rank
  rw [horder, List.idxOf_append_of_mem hearlier, List.idxOf_append_of_notMem hbefore,
    List.idxOf_cons_self]
  exact List.idxOf_lt_length_iff.mpr hearlier

end Schema

end EntityQuery
