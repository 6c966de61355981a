import Mathlib.Data.List.Perm.Lattice
import EntityQuery.CommandLine.Program
import EntityQuery.Proofs.Hierarchy.Agreement
import EntityQuery.Proofs.Joins.Directions
import EntityQuery.Proofs.SchemaDocuments

/-!
# The outline

The listing prints an entity, then its children in the same way, and looks for children in the whole
list of entities each time. `Prints` says this without fuel: it relates the entities that are to be
printed on a level to the entries that come out. What holds of an outline is proved along `Prints`.

The outline comes to an end and has every entity once, in its place (`Schema.listEntities_outline`).
-/

namespace EntityQuery

/-! ## §1 Lines -/

/-- The number of blanks that a line begins with. -/
def indentation (line : String) : Nat :=
  (line.toList.takeWhile (· = ' ')).length

/-- How an entity is shown: with its name, its key and the number of its attributes. -/
def Entity.shownText (e : Entity) : String :=
  "- " ++ e.name ++ " (key: " ++ e.uniqueKey ++ ", " ++ toString e.attributes.length ++
    " attributes)"

theorem OutlineEntry.indentation_line (entry : OutlineEntry) :
    indentation entry.line = 2 * (entry.depth + 1) := by
  have hblanks : ∀ c ∈ List.replicate (2 * (entry.depth + 1)) ' ', decide (c = ' ') = true := by
    intro c hc
    exact decide_eq_true (List.eq_of_mem_replicate hc)
  simp only [indentation, line, String.toList_append, String.toList_ofList, List.append_assoc]
  rw [List.takeWhile_append_of_pos hblanks]
  simp

theorem OutlineEntry.line_eq (entry : OutlineEntry) :
    entry.line = String.ofList (List.replicate (indentation entry.line) ' ') ++
      entry.entity.shownText := by
  rw [entry.indentation_line, line, Entity.shownText]
  simp only [String.append_assoc]

namespace Schema

/-! ## §2 Printing without fuel -/

/-- Printing these entities on a level comes to these entries: for each of them an entry and then
what printing its children on the next level comes to. -/
inductive Prints (s : Schema) : Nat → List Entity → List OutlineEntry → Prop
  | nil (depth : Nat) : Prints s depth [] []
  | cons {depth : Nat} {e : Entity} {es : List Entity} {below rest : List OutlineEntry}
      (hbelow : Prints s (depth + 1) (s.children e.name) below) (hrest : Prints s depth es rest) :
      Prints s depth (e :: es) (⟨depth, e⟩ :: (below ++ rest))

/-- The entities lie on a level of the hierarchy. -/
def OnLevel (s : Schema) (depth : Nat) (es : List Entity) : Prop :=
  ∀ e ∈ es, e ∈ s.entities ∧ s.depth e.name = depth

variable {s : Schema} {depth : Nat} {e x : Entity} {es : List Entity}
  {entries before after : List OutlineEntry} {entry : OutlineEntry}

theorem mem_children {name : String} :
    e ∈ s.children name ↔ e ∈ s.entities ∧ e.parent = some name := by
  simp [children]

theorem isParent_of_mem_children {name : String} (h : e ∈ s.children name) :
    s.IsParent name e.name := by
  obtain ⟨he, hparent⟩ := mem_children.mp h
  exact ⟨e, he, rfl, hparent⟩

/-- What lies at or below a child of an entity lies strictly below the entity. -/
theorem exists_child_iff {upper lower : String} :
    (∃ child ∈ s.children upper, s.AtOrAbove child.name lower) ↔
      s.AtOrAbove upper lower ∧ upper ≠ lower := by
  constructor
  · rintro ⟨child, hchild, habove⟩
    have hlink := isParent_of_mem_children hchild
    refine ⟨(AtOrAbove.of_isParent hlink).trans habove, ?_⟩
    rintro rfl
    exact AtOrAbove.not_of_isParent hlink habove
  · rintro ⟨habove, hne⟩
    rcases Relation.ReflTransGen.cases_head habove with heq | ⟨_, hlink, hle⟩
    · exact absurd heq hne
    · obtain ⟨child, hchild, rfl, hparent⟩ := hlink
      exact ⟨child, mem_children.mpr ⟨hchild, hparent⟩, hle⟩

theorem OnLevel.children (he : s.depth e.name = depth) :
    s.OnLevel (depth + 1) (s.children e.name) := by
  intro child hchild
  refine ⟨(mem_children.mp hchild).1, ?_⟩
  rw [(isParent_of_mem_children hchild).depth_eq, he]

/-- The fuel lasts to the bottom if it is not less than the number of entities without the levels
above. -/
theorem prints_flatMap_subtree {fuel : Nat} (hlevel : s.OnLevel depth es)
    (hfuel : s.entities.length ≤ fuel + depth) :
    s.Prints depth es (es.flatMap (s.subtree fuel depth)) := by
  induction fuel generalizing depth es with
  | zero =>
    cases es with
    | nil => exact .nil depth
    | cons e es =>
      -- no entity has as many ancestors as there are entities
      obtain ⟨he, hdepth⟩ := hlevel e List.mem_cons_self
      have hlt := depth_lt_length (declares_singleton.mpr ⟨e, he, rfl⟩)
      omega
  | succ fuel ih =>
    -- going down takes one from the fuel, going on along the level takes nothing
    induction es with
    | nil => exact .nil depth
    | cons e es ihes =>
      obtain ⟨⟨-, hdepth⟩, hes⟩ := List.forall_mem_cons.mp hlevel
      have hbelow := ih (OnLevel.children hdepth) (by omega)
      exact .cons hbelow (ihes hes)

theorem onLevel_tops (s : Schema) : s.OnLevel 0 (s.entities.filter (!·.isChild)) := by
  intro e he
  obtain ⟨hmem, htop⟩ := List.mem_filter.mp he
  have hparent : s.parent? e = none := by
    rw [parent?, show e.parent = none by simpa [Entity.isChild] using htop, Option.bind_none]
  exact ⟨hmem, by rw [depth, ancestors_of_top hmem hparent, List.length_nil]⟩

theorem exists_top_above : ∀ e ∈ s.entities,
    ∃ top ∈ s.entities.filter (!·.isChild), s.AtOrAbove top.name e.name := by
  apply parent_induction
  intro e he ih
  cases hparent : e.parent with
  | none => exact ⟨e, List.mem_filter.mpr ⟨he, by simp [Entity.isChild, hparent]⟩, .refl _⟩
  | some name =>
    obtain ⟨parent, hmem, rfl⟩ := exists_parent he hparent
    have hfound : s.parent? e = some parent := by
      rw [parent?, hparent, Option.bind_some, entity?_of_mem hmem]
    obtain ⟨top, htop, habove⟩ := ih parent hfound
    exact ⟨top, htop, habove.trans (.of_isParent (isParent_of_parent? he hfound))⟩

theorem prints_outline (s : Schema) : s.Prints 0 (s.entities.filter (!·.isChild)) s.outline :=
  prints_flatMap_subtree s.onLevel_tops (Nat.le_add_right _ _)

/-- Of one level, only one entity lies at or above another entity. -/
theorem eq_of_above {a b : Entity} {name : String} (ha : a ∈ s.entities) (hb : b ∈ s.entities)
    (hdepth : s.depth a.name = s.depth b.name) (habove : s.AtOrAbove a.name name)
    (habove' : s.AtOrAbove b.name name) : a = b := by
  have hname : a.name = b.name := by
    by_contra hne
    rcases habove.total habove' with hle | hle
    · exact absurd hdepth (hle.depth_lt_of_ne hne).ne
    · exact absurd hdepth (hle.depth_lt_of_ne (Ne.symm hne)).ne'
  exact List.inj_on_of_nodup_map s.nodup_names ha hb hname

namespace Prints

/-- What is printed is determined. -/
theorem unique {entries' : List OutlineEntry} (h : s.Prints depth es entries)
    (h' : s.Prints depth es entries') : entries = entries' := by
  induction h generalizing entries' with
  | nil => cases h'; rfl
  | cons _ _ ihbelow ihrest =>
    cases h' with
    | cons hbelow' hrest' => rw [ihbelow hbelow', ihrest hrest']

/-! ## §3 Entries -/

/-- An entry stands for an entity of the schema and has its depth. -/
theorem entry_spec (h : s.Prints depth es entries) (hlevel : s.OnLevel depth es) :
    ∀ entry ∈ entries, entry.entity ∈ s.entities ∧ entry.depth = s.depth entry.entity.name ∧
      depth ≤ entry.depth := by
  induction h with
  | nil => exact fun _ h => absurd h List.not_mem_nil
  | cons _ _ ihbelow ihrest =>
    obtain ⟨⟨hmem, hdepth⟩, hes⟩ := List.forall_mem_cons.mp hlevel
    intro entry hentry
    rcases List.mem_cons.mp hentry with rfl | hentry
    · exact ⟨hmem, hdepth.symm, Nat.le_refl _⟩
    · rcases List.mem_append.mp hentry with hentry | hentry
      · obtain ⟨hmem, hdepth, hle⟩ := ihbelow (OnLevel.children hdepth) entry hentry
        exact ⟨hmem, hdepth, Nat.le_of_succ_le hle⟩
      · exact ihrest hes entry hentry

/-- Printed are the entities themselves and all those below them. -/
theorem mem_iff (h : s.Prints depth es entries) (hes : ∀ e ∈ es, e ∈ s.entities)
    (hx : x ∈ s.entities) :
    x ∈ entries.map (·.entity) ↔ ∃ e ∈ es, s.AtOrAbove e.name x.name := by
  induction h with
  | nil => simp
  | @cons depth e es below rest _ _ ihbelow ihrest =>
    obtain ⟨he, hes⟩ := List.forall_mem_cons.mp hes
    have hbelow := ihbelow fun child hchild => (mem_children.mp hchild).1
    simp only [List.map_cons, List.map_append, List.mem_cons, List.mem_append, hbelow, ihrest hes,
      exists_eq_or_imp, ← or_assoc]
    refine or_congr ?_ Iff.rfl
    -- at or below `e` is `e` itself and what lies at or below its children
    rw [exists_child_iff]
    constructor
    · rintro (rfl | ⟨habove, -⟩)
      · exact .refl _
      · exact habove
    · intro habove
      by_cases heq : e.name = x.name
      · exact .inl (List.inj_on_of_nodup_map s.nodup_names hx he heq.symm)
      · exact .inr ⟨habove, heq⟩

theorem single {below : List OutlineEntry}
    (h : s.Prints (depth + 1) (s.children e.name) below) :
    s.Prints depth [e] (⟨depth, e⟩ :: below) := by
  simpa using h.cons (.nil depth)

/-- No entity is printed twice, if none of those that are to be printed on a level is. -/
theorem nodup (h : s.Prints depth es entries) (hlevel : s.OnLevel depth es) (hnodup : es.Nodup) :
    (entries.map (·.entity)).Nodup := by
  induction h with
  | nil => exact List.nodup_nil
  | @cons depth e es below rest hbelow hrest ihbelow ihrest =>
    obtain ⟨⟨hmem, hdepth⟩, hes⟩ := List.forall_mem_cons.mp hlevel
    obtain ⟨hnew, hnodup⟩ := List.nodup_cons.mp hnodup
    have hchildren := OnLevel.children hdepth
    have hblock : ((⟨depth, e⟩ :: below : List OutlineEntry).map (·.entity)).Nodup := by
      apply List.nodup_cons.mpr
      refine ⟨?_, ihbelow hchildren (List.Nodup.filter _ (List.Nodup.of_map _ s.nodup_names))⟩
      -- below `e` all depths are greater
      intro h
      obtain ⟨entry, hentry, heq⟩ := List.mem_map.mp h
      obtain ⟨-, hentryDepth, hlt⟩ := hbelow.entry_spec hchildren entry hentry
      rw [heq, hdepth] at hentryDepth
      omega
    rw [← List.cons_append, List.map_append]
    apply List.Nodup.append hblock (ihrest hes hnodup)
    -- what lies below `e` does not lie below another entity of its level
    intro x hx hx'
    have hentity : x ∈ s.entities := by
      obtain ⟨entry, hentry, rfl⟩ := List.mem_map.mp hx'
      exact (hrest.entry_spec hes entry hentry).1
    obtain ⟨e', he', habove'⟩ := (hrest.mem_iff (fun e he => (hes e he).1) hentity).mp hx'
    obtain ⟨_, he, habove⟩ := (hbelow.single.mem_iff (by simpa using hmem) hentity).mp hx
    obtain rfl := List.mem_singleton.mp he
    obtain ⟨hmem', hdepth'⟩ := hes e' he'
    obtain rfl := eq_of_above hmem hmem' (hdepth.trans hdepth'.symm) habove habove'
    exact hnew he'

/-- The entries on the level itself are those of the entities to be printed, in their order. -/
theorem level_eq (h : s.Prints depth es entries) (hlevel : s.OnLevel depth es) :
    (entries.filter (·.depth = depth)).map (·.entity) = es := by
  induction h with
  | nil => rfl
  | @cons depth e es below rest hbelow _ _ ihrest =>
    obtain ⟨⟨-, hdepth⟩, hes⟩ := List.forall_mem_cons.mp hlevel
    have hdeeper : below.filter (·.depth = depth) = [] := by
      rw [List.filter_eq_nil_iff]
      intro entry hentry
      have hlt := (hbelow.entry_spec (OnLevel.children hdepth) entry hentry).2.2
      rw [decide_eq_true_iff]
      omega
    rw [List.filter_cons_of_pos (by simp), List.filter_append, hdeeper, List.nil_append,
      List.map_cons, ihrest hes]

/-! ## §4 Places -/

/-- What stands in two lists together stands in one of them. -/
theorem eq_or_eq_of_append {below rest : List OutlineEntry}
    (h : below ++ rest = before ++ entry :: after) :
    (∃ after', below = before ++ entry :: after' ∧ after = after' ++ rest) ∨
      ∃ before', before = below ++ before' ∧ rest = before' ++ entry :: after := by
  rcases List.append_eq_append_iff.mp h with hrest | ⟨middle, hbelow, hafter⟩
  · exact .inr hrest
  · cases middle with
    | nil => exact .inr ⟨[], by simpa using hbelow.symm, hafter.symm⟩
    | cons first middle =>
      obtain ⟨rfl, rfl⟩ := List.cons.inj hafter
      exact .inl ⟨middle, hbelow, rfl⟩

/-- Directly behind an entry comes what printing its children comes to. -/
theorem exists_block (h : s.Prints depth es entries) (hlevel : s.OnLevel depth es)
    (hentries : entries = before ++ entry :: after) :
    ∃ below rest, after = below ++ rest ∧
      s.Prints (entry.depth + 1) (s.children entry.entity.name) below := by
  induction h generalizing before after with
  | nil => exact absurd hentries (by simp)
  | @cons depth e es below rest hbelow hrest ihbelow ihrest =>
    obtain ⟨⟨-, hdepth⟩, hes⟩ := List.forall_mem_cons.mp hlevel
    cases before with
    | nil =>
      obtain ⟨rfl, rfl⟩ := List.cons.inj hentries
      exact ⟨below, rest, rfl, hbelow⟩
    | cons first before =>
      -- the entry lies below `e` or in the rest of the level
      obtain ⟨-, htail⟩ := List.cons.inj hentries
      rcases eq_or_eq_of_append htail with ⟨after', hafter, rfl⟩ | ⟨_, -, hafter⟩
      · obtain ⟨below', rest', rfl, hprints⟩ := ihbelow (OnLevel.children hdepth) hafter
        exact ⟨below', rest' ++ rest, List.append_assoc _ _ _, hprints⟩
      · exact ihrest hes hafter

/-- The entry before which an entry comes, with nothing between them that is less deep, is that of
its parent; if there is none, the entity is one of those to be printed. -/
theorem exists_parent_before (h : s.Prints depth es entries) (hlevel : s.OnLevel depth es)
    (hentries : entries = before ++ entry :: after) :
    (entry.entity ∈ es ∧ entry.depth = depth ∧ ∀ other ∈ before, depth ≤ other.depth) ∨
      ∃ start parent between, before = start ++ parent :: between ∧
        entry.entity ∈ s.children parent.entity.name ∧ entry.depth = parent.depth + 1 ∧
        ∀ other ∈ between, entry.depth ≤ other.depth := by
  induction h generalizing before after with
  | nil => exact absurd hentries (by simp)
  | @cons depth e es below rest hbelow hrest ihbelow ihrest =>
    obtain ⟨⟨-, hdepth⟩, hes⟩ := List.forall_mem_cons.mp hlevel
    have hchildren := OnLevel.children hdepth
    cases before with
    | nil =>
      obtain ⟨rfl, rfl⟩ := List.cons.inj hentries
      exact .inl ⟨List.mem_cons_self, rfl, by simp⟩
    | cons first before =>
      obtain ⟨rfl, htail⟩ := List.cons.inj hentries
      rcases eq_or_eq_of_append htail with ⟨after', hafter, -⟩ | ⟨before', rfl, hafter⟩
      · rcases ihbelow hchildren hafter with ⟨hchild, hentry, hother⟩ | hinside
        · -- a child of `e`, whose entry has been followed by deeper ones only
          exact .inr ⟨[], ⟨depth, e⟩, before, rfl, hchild, hentry, hentry ▸ hother⟩
        · obtain ⟨start, parent, between, rfl, hparent⟩ := hinside
          exact .inr ⟨⟨depth, e⟩ :: start, parent, between, rfl, hparent⟩
      · rcases ihrest hes hafter with ⟨hmem, hentry, hother⟩ | hinside
        · -- on the level itself, with `e` and all that lies below it before it
          refine .inl ⟨List.mem_cons_of_mem _ hmem, hentry, ?_⟩
          intro other hmem'
          rcases List.mem_cons.mp hmem' with rfl | hmem'
          · exact Nat.le_refl _
          · rcases List.mem_append.mp hmem' with hmem' | hmem'
            · exact Nat.le_of_succ_le (hbelow.entry_spec hchildren other hmem').2.2
            · exact hother other hmem'
        · obtain ⟨start, parent, between, rfl, hparent⟩ := hinside
          exact .inr ⟨⟨depth, e⟩ :: (below ++ start), parent, between, by simp, hparent⟩

end Prints

/-! ## §5 Listings -/

/-- The entries show the entities of a schema, each in its place. -/
structure IsOutline (s : Schema) (entries : List OutlineEntry) : Prop where
  /-- Every entity has one entry. -/
  once : (entries.map (·.entity)).Perm s.entities
  depth : ∀ entry ∈ entries, entry.depth = s.depth entry.entity.name
  /-- An entry is indented by two blanks for its entity and for each ancestor. -/
  indented : ∀ entry ∈ entries, indentation entry.line = 2 * (s.depth entry.entity.name + 1)
  /-- Behind its blanks an entry shows its entity. -/
  shown : ∀ entry ∈ entries, entry.line =
    String.ofList (List.replicate (indentation entry.line) ' ') ++ entry.entity.shownText
  /-- The entities without parent come in the order of declaration. -/
  tops : (entries.filter (·.depth = 0)).map (·.entity) = s.entities.filter (!·.isChild)
  /-- Directly behind an entry come those of the entities below its own, with the children of this
  entity in the order of declaration. -/
  block : ∀ before entry after, entries = before ++ entry :: after →
    ∃ below rest, after = below ++ rest ∧
      (∀ e ∈ s.entities, e ∈ below.map (·.entity) ↔
        s.isDescendant e.name entry.entity.name = true) ∧
      (below.filter (·.depth = entry.depth + 1)).map (·.entity) = s.children entry.entity.name
  /-- The last entry before another one that is indented less is that of the parent. -/
  parent : ∀ before entry after, entries = before ++ entry :: after →
    ∀ name, entry.entity.parent = some name →
      ∃ start parent between, before = start ++ parent :: between ∧ parent.entity.name = name ∧
        indentation parent.line < indentation entry.line ∧
        ∀ other ∈ between, indentation entry.line ≤ indentation other.line
  /-- Before an entity without parent there is no entry that is indented less. -/
  top : ∀ before entry after, entries = before ++ entry :: after → entry.entity.parent = none →
    ∀ other ∈ before, indentation entry.line ≤ indentation other.line

theorem Prints.isOutline (h : s.Prints 0 (s.entities.filter (!·.isChild)) entries) :
    s.IsOutline entries where
  once := by
    have hnodup := List.Nodup.of_map _ s.nodup_names
    apply (List.perm_ext_iff_of_nodup (h.nodup s.onLevel_tops (hnodup.filter _)) hnodup).mpr
    intro e
    constructor
    · intro hmem
      obtain ⟨entry, hentry, rfl⟩ := List.mem_map.mp hmem
      exact (h.entry_spec s.onLevel_tops entry hentry).1
    · intro he
      exact (h.mem_iff (fun e he => (s.onLevel_tops e he).1) he).mpr (exists_top_above e he)
  depth := fun entry hentry => (h.entry_spec s.onLevel_tops entry hentry).2.1
  indented := by
    intro entry hentry
    rw [entry.indentation_line, (h.entry_spec s.onLevel_tops entry hentry).2.1]
  shown := fun entry _ => entry.line_eq
  tops := h.level_eq s.onLevel_tops
  block := by
    intro before entry after hentries
    have hentry : entry ∈ entries := hentries ▸ List.mem_append_right _ List.mem_cons_self
    have hdepth := (h.entry_spec s.onLevel_tops entry hentry).2.1
    obtain ⟨below, rest, rfl, hbelow⟩ := h.exists_block s.onLevel_tops hentries
    have hchildren := OnLevel.children hdepth.symm
    refine ⟨below, rest, rfl, fun e he => ?_, hbelow.level_eq hchildren⟩
    rw [hbelow.mem_iff (fun child hchild => (hchildren child hchild).1) he, exists_child_iff,
      isDescendant_iff]
  parent := by
    intro before entry after hentries name hname
    rcases h.exists_parent_before s.onLevel_tops hentries with ⟨htop, -⟩ | hinside
    · have hchild := (List.mem_filter.mp htop).2
      rw [Entity.isChild, hname] at hchild
      exact absurd hchild (by simp)
    · obtain ⟨start, parent, between, hbefore, hchild, hdepth, hother⟩ := hinside
      have hparent := (mem_children.mp hchild).2
      refine ⟨start, parent, between, hbefore, Option.some.inj (hparent.symm.trans hname), ?_, ?_⟩
      · rw [parent.indentation_line, entry.indentation_line]
        omega
      · intro other hmem
        have hle := hother other hmem
        rw [other.indentation_line, entry.indentation_line]
        omega
  top := by
    intro before entry after hentries hnone other hother
    rcases h.exists_parent_before s.onLevel_tops hentries with ⟨-, hdepth, -⟩ | hinside
    · rw [other.indentation_line, entry.indentation_line, hdepth]
      omega
    · obtain ⟨_, _, _, -, hchild, -⟩ := hinside
      exact absurd ((mem_children.mp hchild).2.symm.trans hnone) (by simp)

/-- For every schema document the entities can be listed. Printing each entity and then its children
in the same way comes to an end, and to one outcome, in which every entity has one entry in its
place. The listing has the lines of these entries below its title, and the metadata of expeditions
after them. -/
theorem listEntities_outline {document : String} (h : parse document = .ok s) :
    ∃ entries, s.Prints 0 (s.entities.filter (!·.isChild)) entries ∧
      (∀ other, s.Prints 0 (s.entities.filter (!·.isChild)) other → other = entries) ∧
      s.IsOutline entries ∧
      CommandLine.listEntities document =
        .ok (String.join (("Entities:" :: entries.map OutlineEntry.line ++
          if s.metadata.isEmpty then []
          else "" :: "Expedition metadata:" :: s.metadata.map MetadataProperty.line).map
            (· ++ "\n"))) := by
  have hprints := s.prints_outline
  refine ⟨s.outline, hprints, fun other hother => hother.unique hprints, hprints.isOutline, ?_⟩
  rw [CommandLine.listEntities, h]
  rfl

/-- Photos and samples are listed below events, and tissues below samples, although tissues are
declared before both. -/
theorem listEntities_outline_survey :
    ∃ entries, survey.IsOutline entries ∧
      entries.map (fun entry => (indentation entry.line, entry.entity.name)) =
        [(2, "Event"), (4, "Photo"), (4, "Sample"), (6, "Tissue"), (2, "Site")] ∧
      CommandLine.listEntities survey.serialize = .ok (String.join
        ["Entities:\n",
         "  - Event (key: eventID, 1 attributes)\n",
         "    - Photo (key: photoID, 1 attributes)\n",
         "    - Sample (key: sampleID, 1 attributes)\n",
         "      - Tissue (key: tissueID, 1 attributes)\n",
         "  - Site (key: siteID, 1 attributes)\n"]) := by
  have hparse : parse survey.serialize = .ok survey := by
    rw [serialize, parse_compact_partsToJson, ofEntities_eq_ok_iff.mpr ⟨rfl, rfl⟩]
    rfl
  obtain ⟨entries, hprints, -, houtline, hlisting⟩ := listEntities_outline hparse
  obtain rfl := hprints.unique survey.prints_outline
  refine ⟨_, houtline, by decide +kernel, hlisting.trans (congrArg _ ?_)⟩
  decide +kernel

end Schema

end EntityQuery
