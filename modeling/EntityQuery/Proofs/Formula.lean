/-!
# Boolean formulas

Formulas over atoms, and their values. An assignment may tell two occurrences of one atom apart:
it is asked for the place of an occurrence, counted from the left, as well as for the atom.

Two formulas agree if they have the same atoms in the same order and the same value under every
assignment. As every occurrence has a truth value of its own, each formula can be made true and
made false (`exists_value_eq`).
-/

namespace EntityQuery

/-! ## §1 Formulas and values -/

/-- A boolean formula. -/
inductive Formula (α : Type)
  | atom (a : α)
  | not (f : Formula α)
  | and (f g : Formula α)
  | or (f g : Formula α)
  deriving DecidableEq, Repr

/-- Truth values for the occurrences of atoms, by their places. -/
abbrev Assignment (α : Type) := Nat → α → Bool

/-- Truth values that depend on the places only. -/
def Assignment.byPlace {α : Type} (v : Nat → Bool) : Assignment α :=
  fun i _ => v i

namespace Formula

variable {α β : Type}

/-- The atoms of a formula from left to right. -/
def atoms : Formula α → List α
  | atom a => [a]
  | not f => f.atoms
  | and f g | or f g => f.atoms ++ g.atoms

/-- The value of a formula whose first atom has place `k`. -/
def value (v : Assignment α) : (k : Nat) → Formula α → Bool
  | k, atom a => v k a
  | k, not f => !f.value v k
  | k, and f g => f.value v k && g.value v (k + f.atoms.length)
  | k, or f g => f.value v k || g.value v (k + f.atoms.length)

/-- The formula with its atoms replaced. -/
def map (h : α → β) : Formula α → Formula β
  | atom a => atom (h a)
  | not f => not (f.map h)
  | and f g => and (f.map h) (g.map h)
  | or f g => or (f.map h) (g.map h)

/-- The conjunction of formulas, of which there must be one. -/
def conjunction? : List (Formula α) → Option (Formula α)
  | [] => none
  | f :: fs => some (fs.foldl and f)

/-- All formulas of a list are true, one standing after the other. -/
def allTrue (v : Assignment α) : (k : Nat) → List (Formula α) → Bool
  | _, [] => true
  | k, f :: fs => f.value v k && allTrue v (k + f.atoms.length) fs

@[simp] theorem atoms_map (h : α → β) (f : Formula α) : (f.map h).atoms = f.atoms.map h := by
  induction f <;> simp_all [map, atoms]

@[simp] theorem value_map (h : α → β) (v : Assignment β) (k : Nat) (f : Formula α) :
    (f.map h).value v k = f.value (fun i a => v i (h a)) k := by
  induction f generalizing k <;> simp_all [map, value]

theorem atoms_foldl_and (f : Formula α) (fs : List (Formula α)) :
    (fs.foldl and f).atoms = f.atoms ++ fs.flatMap atoms := by
  induction fs generalizing f <;> simp_all [atoms]

theorem map_foldl_and (h : α → β) (f : Formula α) (fs : List (Formula α)) :
    (fs.foldl and f).map h = (fs.map (map h)).foldl and (f.map h) := by
  induction fs generalizing f <;> simp_all [map]

/-- A conjunction is true if all its parts are. -/
theorem value_foldl_and (v : Assignment α) (k : Nat) (f : Formula α) (fs : List (Formula α)) :
    (fs.foldl and f).value v k = allTrue v k (f :: fs) := by
  -- the conjunction is nested to the left, so the first formula grows with each step
  induction fs generalizing f with
  | nil => simp [allTrue]
  | cons g gs ih => simp [ih, allTrue, value, atoms, Bool.and_assoc, Nat.add_assoc]

/-! ## §2 Agreement -/

/-- Formulas with the same atoms and the same value under every assignment. -/
structure Agrees (f g : Formula α) : Prop where
  atoms : f.atoms = g.atoms
  value : ∀ v k, f.value v k = g.value v k

namespace Agrees

variable {f f' g g' h : Formula α}

theorem refl (f : Formula α) : f.Agrees f :=
  ⟨rfl, fun _ _ => rfl⟩

theorem trans (hfg : f.Agrees g) (hgh : g.Agrees h) : f.Agrees h :=
  ⟨hfg.atoms.trans hgh.atoms, fun v k => (hfg.value v k).trans (hgh.value v k)⟩

theorem not (hf : f.Agrees f') : f.not.Agrees f'.not :=
  ⟨hf.atoms, fun v k => by simp [Formula.value, hf.value]⟩

theorem and (hf : f.Agrees f') (hg : g.Agrees g') : (f.and g).Agrees (f'.and g') :=
  ⟨by simp [Formula.atoms, hf.atoms, hg.atoms],
   fun v k => by simp [Formula.value, hf.value, hg.value, hf.atoms]⟩

theorem or (hf : f.Agrees f') (hg : g.Agrees g') : (f.or g).Agrees (f'.or g') :=
  ⟨by simp [Formula.atoms, hf.atoms, hg.atoms],
   fun v k => by simp [Formula.value, hf.value, hg.value, hf.atoms]⟩

theorem and_assoc (f g h : Formula α) : (f.and (g.and h)).Agrees ((f.and g).and h) :=
  ⟨by simp [Formula.atoms],
   fun v k => by simp [Formula.value, Formula.atoms, Bool.and_assoc, Nat.add_assoc]⟩

theorem or_assoc (f g h : Formula α) : (f.or (g.or h)).Agrees ((f.or g).or h) :=
  ⟨by simp [Formula.atoms],
   fun v k => by simp [Formula.value, Formula.atoms, Bool.or_assoc, Nat.add_assoc]⟩

theorem map (r : α → β) (hfg : f.Agrees g) : (f.map r).Agrees (g.map r) :=
  ⟨by simp [hfg.atoms], fun v k => by simp [hfg.value]⟩

end Agrees

/-! ## §3 Free choice of values -/

/-- The first truth values below a place, and the second ones from there on. -/
def glue (v w : Nat → Bool) (m : Nat) : Nat → Bool :=
  fun i => if i < m then v i else w i

/-- Only the places of a formula's own atoms matter for its value. -/
theorem value_congr {v w : Assignment α} {k : Nat} {f : Formula α}
    (h : ∀ i, k ≤ i → i < k + f.atoms.length → v i = w i) : f.value v k = f.value w k := by
  induction f generalizing k with
  | atom a => simp [value, h k (Nat.le_refl k) (by simp [atoms])]
  | not f ih => simp only [value, ih h]
  | and f g ihf ihg | or f g ihf ihg =>
    simp only [atoms, List.length_append] at h
    simp only [value]
    -- the places of the two operands lie one after the other
    rw [ihf fun i hi hlt => h i hi (by omega), ihg fun i hi hlt => h i (by omega) (by omega)]

theorem value_glue_left (v w : Nat → Bool) {m k : Nat} {f : Formula α}
    (h : k + f.atoms.length ≤ m) : f.value (.byPlace (glue v w m)) k = f.value (.byPlace v) k := by
  apply value_congr
  intro i _ hi
  funext a
  exact if_pos (by omega)

theorem value_glue_right (v w : Nat → Bool) {m k : Nat} {f : Formula α} (h : m ≤ k) :
    f.value (.byPlace (glue v w m)) k = f.value (.byPlace w) k := by
  apply value_congr
  intro i hi _
  funext a
  exact if_neg (by omega)

/-- Two formulas that stand one after the other can be given any two values. -/
theorem exists_values {f g : Formula α} {k m : Nat} {b c : Bool} (hm : k + f.atoms.length ≤ m)
    (hf : ∃ v, f.value (.byPlace v) k = b) (hg : ∃ v, g.value (.byPlace v) m = c) :
    ∃ v, f.value (.byPlace v) k = b ∧ g.value (.byPlace v) m = c := by
  obtain ⟨v, hv⟩ := hf
  obtain ⟨w, hw⟩ := hg
  refine ⟨glue v w m, ?_, ?_⟩
  · rw [value_glue_left v w hm, hv]
  · rw [value_glue_right v w (Nat.le_refl _), hw]

/-- Every formula takes both values. -/
theorem exists_value_eq (f : Formula α) (k : Nat) (b : Bool) :
    ∃ v, f.value (.byPlace v) k = b := by
  induction f generalizing k b with
  | atom a => exact ⟨fun _ => b, rfl⟩
  | not f ih =>
    obtain ⟨v, hv⟩ := ih k (!b)
    exact ⟨v, by simp [value, hv]⟩
  | and f g ihf ihg | or f g ihf ihg =>
    -- both operands can take the wanted value, as they share no place
    obtain ⟨v, hf, hg⟩ :=
      exists_values (Nat.le_refl _) (ihf k b) (ihg (k + f.atoms.length) b)
    exact ⟨v, by simp [value, hf, hg]⟩

end Formula

end EntityQuery
