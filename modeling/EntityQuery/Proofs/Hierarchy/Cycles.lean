import EntityQuery.Proofs.Hierarchy.Ancestors

/-!
# The sweeps find cycles and nothing else

Two sweeps decide whether following parents always comes to an end. That an order in which parents
come first rules out cycles was seen before; here is the other direction: what the second sweep
finds late is its own ancestor. For the downward sweep leaves each entity after its children, unless
they lie on a cycle.

The entities that the sweep has entered but not left yet are those it is descending from, so an
entity that is met again before it was left is its own ancestor. The fuel lasts because each level
of the descent enters one more of the declared names.
-/

namespace EntityQuery

/-! ## §1 Parent links of a list of entities -/

/-- An entity of the list has the one name and names the other as its parent. -/
def ParentLink (es : List Entity) (parent child : String) : Prop :=
  ∃ e ∈ es, e.name = child ∧ e.parent = some parent

/-- A name is an ancestor of itself. -/
def OnCycle (es : List Entity) (name : String) : Prop :=
  Relation.TransGen (ParentLink es) name name

/-- No name is an ancestor of itself. -/
def Acyclic (es : List Entity) : Prop :=
  ∀ name, ¬ Relation.TransGen (ParentLink es) name name

/-- The name some steps above another, as long as there are parents. -/
def nthParent? (es : List Entity) : Nat → String → Option String
  | 0, name => some name
  | n + 1, name => (parentName? es name).bind (nthParent? es n)

section Links

variable {es : List Entity} {parent child : String}

theorem mem_childNames : child ∈ childNames es parent ↔ ParentLink es parent child := by
  simp only [childNames, ParentLink, List.mem_map, List.mem_filter, beq_iff_eq]
  exact ⟨fun ⟨e, ⟨he, hparent⟩, hname⟩ => ⟨e, he, hname, hparent⟩,
    fun ⟨e, he, hname, hparent⟩ => ⟨e, ⟨he, hparent⟩, hname⟩⟩

theorem ParentLink.child_mem (h : ParentLink es parent child) : child ∈ es.map (·.name) := by
  obtain ⟨e, he, rfl, -⟩ := h
  exact List.mem_map_of_mem he

theorem parentLink_of_parentName? (h : parentName? es child = some parent) :
    ParentLink es parent child := by
  obtain ⟨e, hfound, hparent⟩ := Option.bind_eq_some_iff.mp h
  exact ⟨e, List.mem_of_find?_eq_some hfound, by simpa using List.find?_some hfound, hparent⟩

/-- With distinct names, the parent that is looked up is the only one. -/
theorem parentName?_eq_some_iff (hnodup : (es.map (·.name)).Nodup) :
    parentName? es child = some parent ↔ ParentLink es parent child := by
  refine ⟨parentLink_of_parentName?, ?_⟩
  rintro ⟨e, he, rfl, hparent⟩
  rw [parentName?, find?_key_of_mem hnodup he, Option.bind_some, hparent]

end Links

/-! ## §2 Ends of chains -/

section Ends

variable {es : List Entity}

/-- If the parents of a name come to an end, the name is not above itself. -/
theorem not_transGen_of_nthParent? (hnodup : (es.map (·.name)).Nodup) {n : Nat} {name : String}
    (h : nthParent? es n name = none) : ¬ Relation.TransGen (ParentLink es) name name := by
  induction n generalizing name with
  | zero => exact absurd h (by simp [nthParent?])
  | succ n ih =>
    intro hcycle
    obtain ⟨parent, habove, hlink⟩ := Relation.TransGen.tail'_iff.mp hcycle
    rw [nthParent?, (parentName?_eq_some_iff hnodup).mpr hlink, Option.bind_some] at h
    -- the cycle also leads from the parent around to itself
    exact ih h (Relation.TransGen.head' hlink habove)

/-- An ancestor is found some steps above. -/
theorem exists_nthParent?_eq_some (hnodup : (es.map (·.name)).Nodup) {upper lower : String}
    (h : Relation.TransGen (ParentLink es) upper lower) :
    ∃ n, nthParent? es (n + 1) lower = some upper := by
  -- on the chain of links from the upper name down, each of which is one step upwards
  induction h with
  | single hlink =>
    exact ⟨0, by rw [nthParent?, (parentName?_eq_some_iff hnodup).mpr hlink]; rfl⟩
  | tail _ hlink ih =>
    obtain ⟨n, hn⟩ := ih
    exact ⟨n + 1, by rw [nthParent?, (parentName?_eq_some_iff hnodup).mpr hlink]; exact hn⟩

/-- With a name on a cycle its parent lies on the cycle, too. -/
theorem OnCycle.parent (hnodup : (es.map (·.name)).Nodup) {parent child : String}
    (h : OnCycle es child) (hlink : ParentLink es parent child) : OnCycle es parent := by
  obtain ⟨last, habove, hlast⟩ := Relation.TransGen.tail'_iff.mp h
  have hparent := (parentName?_eq_some_iff hnodup).mpr hlink
  have hlast' := (parentName?_eq_some_iff hnodup).mpr hlast
  obtain rfl : last = parent := Option.some.inj (hlast'.symm.trans hparent)
  exact Relation.TransGen.head' hlink habove

end Ends

/-! ## §3 The downward sweep -/

/-- In a list of names, the children of each name come after it, unless they lie on a cycle. -/
def ChildrenLast (es : List Entity) : List String → Prop
  | [] => True
  | name :: after =>
    (∀ child ∈ childNames es name, child ∈ after ∨ OnCycle es child) ∧ ChildrenLast es after

theorem ChildrenLast.child_mem {es : List Entity} {names before after : List String}
    {name child : String} (h : ChildrenLast es names) (hnames : names = before ++ name :: after)
    (hchild : child ∈ childNames es name) : child ∈ after ∨ OnCycle es child := by
  -- the names before it only have to be passed
  induction before generalizing names with
  | nil =>
    subst hnames
    exact h.1 child hchild
  | cons first before ih =>
    subst hnames
    exact ih h.2 rfl

namespace Sweep

variable {es : List Entity}

/-- What holds between two visits: only declared names were entered, none twice, and what was left
was left after its children and only once. -/
structure Orderly (es : List Entity) (sweep : Sweep) : Prop where
  declared : sweep.entered ⊆ es.map (·.name)
  entered : sweep.entered.Nodup
  left : sweep.left.Nodup
  left_entered : sweep.left ⊆ sweep.entered
  childrenLast : ChildrenLast es sweep.left

/-- The entities that were entered but not left yet are ancestors of a name. -/
def OpenAbove (es : List Entity) (sweep : Sweep) (name : String) : Prop :=
  ∀ other ∈ sweep.entered,
    other ∈ sweep.left ∨ Relation.TransGen (ParentLink es) other name

/-- A visit goes on from a sweep and leaves only names that had not been entered. -/
structure Advances (es : List Entity) (sweep later : Sweep) : Prop where
  continues : Continues sweep later
  orderly : Orderly es later
  fresh : ∀ name ∈ later.left, name ∈ sweep.left ∨ name ∉ sweep.entered

theorem Orderly.refl {sweep : Sweep} (h : Orderly es sweep) : Advances es sweep sweep :=
  ⟨.refl sweep, h, fun _ => .inl⟩

theorem Advances.trans {sweep later last : Sweep} (h : Advances es sweep later)
    (h' : Advances es later last) : Advances es sweep last where
  continues := h.continues.trans h'.continues
  orderly := h'.orderly
  fresh := by
    intro name hname
    rcases h'.fresh name hname with hname | hname
    · exact h.fresh name hname
    · exact .inr fun hentered => hname (h.continues.entered name hentered)

/-- What is entered later is left again, so what is open stays what it was. -/
theorem OpenAbove.of_continues {sweep later : Sweep} {name : String}
    (h : OpenAbove es sweep name) (hcontinues : Continues sweep later) :
    OpenAbove es later name := by
  intro other hother
  -- what the later sweep has entered it has left, or the earlier one had entered it
  rcases hcontinues.finished other hother with hother | hother
  · exact (h other hother).imp_left (hcontinues.left other)
  · exact .inl hother

theorem Orderly.length_mono {sweep later : Sweep} (h : Orderly es sweep)
    (hcontinues : Continues sweep later) : sweep.entered.length ≤ later.entered.length :=
  (h.entered.subperm hcontinues.entered).length_le

/-- A name that is entered now was not entered before, and each of its children finds only its
ancestors open. -/
theorem Orderly.enter {sweep : Sweep} {name : String} (h : Orderly es sweep)
    (hname : name ∈ es.map (·.name)) (hnew : name ∉ sweep.entered)
    (hopen : OpenAbove es sweep name) :
    Orderly es { sweep with entered := name :: sweep.entered } ∧
      ∀ child ∈ childNames es name,
        OpenAbove es { sweep with entered := name :: sweep.entered } child := by
  refine ⟨⟨?_, List.nodup_cons.mpr ⟨hnew, h.entered⟩, h.left, ?_, h.childrenLast⟩, ?_⟩
  · exact List.cons_subset.mpr ⟨hname, h.declared⟩
  · exact fun other hother => List.mem_cons_of_mem _ (h.left_entered hother)
  · intro child hchild other hother
    have hlink := mem_childNames.mp hchild
    -- the name itself is now open, and it is the parent of each child
    rcases List.mem_cons.mp hother with rfl | hother
    · exact .inr (.single hlink)
    · exact (hopen other hother).imp_right fun habove => habove.tail hlink

/-- A sweep can go on with visits of names: there is fuel for them, and what is open are their
ancestors. -/
structure Ready (es : List Entity) (fuel : Nat) (sweep : Sweep) (names : List String) : Prop where
  orderly : Orderly es sweep
  fuel : es.length ≤ fuel + sweep.entered.length
  declared : names ⊆ es.map (·.name)
  above : ∀ name ∈ names, OpenAbove es sweep name

namespace Ready

variable {fuel : Nat} {sweep later : Sweep} {name : String} {names : List String}

theorem start (es : List Entity) : Ready es es.length {} (es.map (·.name)) where
  orderly := ⟨List.nil_subset _, List.nodup_nil, List.nodup_nil, List.nil_subset _, trivial⟩
  fuel := Nat.le_add_right _ _
  declared := List.Subset.refl _
  above := fun _ _ _ hother => absurd hother List.not_mem_nil

theorem head (h : Ready es fuel sweep (name :: names)) : Ready es fuel sweep [name] :=
  { h with
    declared := List.cons_subset.mpr ⟨h.declared List.mem_cons_self, List.nil_subset _⟩
    above := by simpa using h.above name List.mem_cons_self }

/-- After the first visit the sweep can go on with the others. -/
theorem tail (h : Ready es fuel sweep (name :: names)) (hlater : Advances es sweep later) :
    Ready es fuel later names where
  orderly := hlater.orderly
  fuel := by
    have hgrows := h.orderly.length_mono hlater.continues
    have hfuel := h.fuel
    omega
  declared := fun other hother => h.declared (List.mem_cons_of_mem _ hother)
  above := fun other hother =>
    (h.above other (List.mem_cons_of_mem _ hother)).of_continues hlater.continues

/-- When a name has been entered, the sweep can go on with some of its children. -/
theorem enter (h : Ready es (fuel + 1) sweep [name]) (hnew : name ∉ sweep.entered)
    {children : List String} (hchildren : children ⊆ childNames es name) :
    Ready es fuel { sweep with entered := name :: sweep.entered } children where
  orderly := (h.orderly.enter (h.declared List.mem_cons_self) hnew
    (h.above name List.mem_cons_self)).1
  fuel := by
    have hfuel := h.fuel
    simp only [List.length_cons]
    omega
  declared := fun child hchild => (mem_childNames.mp (hchildren hchild)).child_mem
  above := fun child hchild => (h.orderly.enter (h.declared List.mem_cons_self) hnew
    (h.above name List.mem_cons_self)).2 child (hchildren hchild)

/-- There is fuel for a name that was not entered, as all names that were are declared. -/
theorem exists_fuel (h : Ready es fuel sweep [name]) (hnew : name ∉ sweep.entered) :
    ∃ less, fuel = less + 1 := by
  have hmore : (name :: sweep.entered).length ≤ (es.map (·.name)).length := by
    have hnodup := List.nodup_cons.mpr ⟨hnew, h.orderly.entered⟩
    have hdeclared := List.cons_subset.mpr ⟨h.declared List.mem_cons_self, h.orderly.declared⟩
    exact (hnodup.subperm hdeclared).length_le
  have hfuel := h.fuel
  rw [List.length_cons, List.length_map] at hmore
  exact Nat.exists_eq_add_one.mpr (by omega)

end Ready

/-- What each single visit does, several visits do one after the other. -/
theorem advances_foldl {fuel : Nat}
    (hvisit : ∀ sweep name, Ready es fuel sweep [name] →
      Advances es sweep (visit es fuel sweep name) ∧
        (name ∈ (visit es fuel sweep name).left ∨ OnCycle es name))
    (names : List String) (sweep : Sweep) (hready : Ready es fuel sweep names) :
    Advances es sweep (names.foldl (visit es fuel) sweep) ∧
      ∀ name ∈ names, name ∈ (names.foldl (visit es fuel) sweep).left ∨ OnCycle es name := by
  induction names generalizing sweep with
  | nil => exact ⟨hready.orderly.refl, by simp⟩
  | cons first others ih =>
    obtain ⟨hfirst, hleft⟩ := hvisit sweep first hready.head
    obtain ⟨hothers, hall⟩ := ih (visit es fuel sweep first) (hready.tail hfirst)
    refine ⟨hfirst.trans hothers, ?_⟩
    intro name hname
    rcases List.mem_cons.mp hname with rfl | hname
    · exact hleft.imp_left (hothers.continues.left name)
    · exact hall name hname

/-- A name that is left after its children comes before them in the order. -/
theorem Advances.leave {sweep below : Sweep} {name : String} (horderly : Orderly es sweep)
    (hnew : name ∉ sweep.entered)
    (h : Advances es { sweep with entered := name :: sweep.entered } below)
    (hchildren : ∀ child ∈ childNames es name, child ∈ below.left ∨ OnCycle es child) :
    Advances es sweep { below with left := name :: below.left } where
  continues :=
    { entered := fun other hother =>
        h.continues.entered other (List.mem_cons_of_mem _ hother)
      left := fun other hother => List.mem_cons_of_mem _ (h.continues.left other hother)
      finished := by
        intro other hother
        rcases h.continues.finished other hother with hother | hother
        · rcases List.mem_cons.mp hother with rfl | hother
          · exact .inr List.mem_cons_self
          · exact .inl hother
        · exact .inr (List.mem_cons_of_mem _ hother) }
  orderly :=
    { declared := h.orderly.declared
      entered := h.orderly.entered
      left := by
        refine List.nodup_cons.mpr ⟨?_, h.orderly.left⟩
        -- below the entity only what was entered after it has been left
        intro hleft
        rcases h.fresh name hleft with hleft | hleft
        · exact hnew (horderly.left_entered hleft)
        · exact hleft List.mem_cons_self
      left_entered := List.cons_subset.mpr
        ⟨h.continues.entered name List.mem_cons_self, h.orderly.left_entered⟩
      childrenLast := ⟨hchildren, h.orderly.childrenLast⟩ }
  fresh := by
    intro other hother
    rcases List.mem_cons.mp hother with rfl | hother
    · exact .inr hnew
    · exact (h.fresh other hother).imp_right fun hentered hmem =>
        hentered (List.mem_cons_of_mem _ hmem)

/-- A visit leaves its entity, unless it comes upon a cycle. -/
theorem advances_visit (fuel : Nat) :
    ∀ sweep name, Ready es fuel sweep [name] →
      Advances es sweep (visit es fuel sweep name) ∧
        (name ∈ (visit es fuel sweep name).left ∨ OnCycle es name) := by
  induction fuel with
  | zero =>
    intro sweep name hready
    -- all declared names have been entered when the fuel is used up
    have hentered : name ∈ sweep.entered := by
      by_contra hnew
      obtain ⟨_, hfuel⟩ := hready.exists_fuel hnew
      exact absurd hfuel (by simp)
    exact ⟨hready.orderly.refl, hready.above name List.mem_cons_self name hentered⟩
  | succ fuel ih =>
    intro sweep name hready
    unfold visit
    split
    · -- a name that was entered but not left is open, so it is its own ancestor
      rename_i hentered
      exact ⟨hready.orderly.refl, hready.above name List.mem_cons_self name hentered⟩
    · rename_i hnew
      obtain ⟨hbelow, hchildren⟩ := advances_foldl ih (childNames es name)
        { sweep with entered := name :: sweep.entered } (hready.enter hnew (List.Subset.refl _))
      exact ⟨hbelow.leave hready.orderly hnew hchildren, .inl List.mem_cons_self⟩

end Sweep

/-- The sweep leaves children before their parents, unless they lie on a cycle, and no name
twice. -/
theorem childrenLast_sweepOrder (es : List Entity) :
    ChildrenLast es (sweepOrder es) ∧ (sweepOrder es).Nodup := by
  obtain ⟨hsweep, -⟩ := Sweep.advances_foldl (Sweep.advances_visit es.length)
    (es.map (·.name)) {} (Sweep.Ready.start es)
  exact ⟨hsweep.orderly.childrenLast, hsweep.orderly.left⟩

/-! ## §4 The second sweep -/

/-- A parent that is late does not come before its child. -/
theorem exists_of_lateParent? {es : List Entity} {earlier names : List String} {parent : String}
    (h : lateParent? es earlier names = some parent) :
    parent ∉ earlier ∧ ∃ before name after, names = before ++ name :: after ∧
      parentName? es name = some parent ∧ parent ∉ before := by
  induction names generalizing earlier with
  | nil => exact absurd h (by simp [lateParent?])
  | cons first others ih =>
    have hlater : lateParent? es (first :: earlier) others = some parent →
        parent ∉ earlier ∧ ∃ before name after, first :: others = before ++ name :: after ∧
          parentName? es name = some parent ∧ parent ∉ before := by
      intro hothers
      obtain ⟨hearlier, before, name, after, rfl, hparent, hbefore⟩ := ih hothers
      rw [List.mem_cons, not_or] at hearlier
      exact ⟨hearlier.2, first :: before, name, after, rfl, hparent,
        by simp [hearlier.1, hbefore]⟩
    unfold lateParent? at h
    split at h
    · rename_i found hfound
      split at h
      · exact hlater h
      · rename_i hlate
        obtain rfl := Option.some.inj h
        exact ⟨hlate, [], first, others, rfl, hfound, List.not_mem_nil⟩
    · exact hlater h

/-- The parent that is found late lies on a cycle. -/
theorem onCycle_of_cycle? {es : List Entity} (hnodup : (es.map (·.name)).Nodup)
    (hdeclared : ∀ e ∈ es, ∀ parent ∈ e.parent, parent ∈ es.map (·.name)) {name : String}
    (h : cycle? es = some name) : OnCycle es name := by
  obtain ⟨hlast, hdistinct⟩ := childrenLast_sweepOrder es
  obtain ⟨-, before, child, after, horder, hparent, hbefore⟩ := exists_of_lateParent? h
  -- its parents are declared, so the sweep leaves the name somewhere
  have hlink := parentLink_of_parentName? hparent
  have hmem : name ∈ sweepOrder es := by
    obtain ⟨e, he, -, hname⟩ := hlink
    obtain ⟨p, hp, rfl⟩ := List.mem_map.mp (hdeclared e he name hname)
    exact mem_sweepOrder hp
  rw [horder] at hmem hdistinct
  rcases List.mem_cons.mp ((List.mem_append.mp hmem).resolve_left hbefore) with rfl | hafter
  · -- the name is its own parent
    exact .single hlink
  · obtain ⟨between, later, rfl⟩ := List.append_of_mem hafter
    have horder' : sweepOrder es = (before ++ child :: between) ++ name :: later := by
      rw [horder, List.append_assoc, List.cons_append]
    -- the child does not come again after its parent, so it lies on a cycle
    rcases hlast.child_mem horder' (mem_childNames.mpr hlink) with hlater | hcycle
    · have honce := (List.nodup_cons.mp (List.nodup_append.mp hdistinct).2.1).1
      exact absurd (by simp [hlater]) honce
    · exact hcycle.parent hnodup hlink

theorem cycle?_eq_none_of_acyclic {es : List Entity} (hnodup : (es.map (·.name)).Nodup)
    (hdeclared : ∀ e ∈ es, ∀ parent ∈ e.parent, parent ∈ es.map (·.name))
    (hacyclic : Acyclic es) : cycle? es = none := by
  rw [Option.eq_none_iff_forall_ne_some]
  exact fun name hname => hacyclic name (onCycle_of_cycle? hnodup hdeclared hname)

end EntityQuery
