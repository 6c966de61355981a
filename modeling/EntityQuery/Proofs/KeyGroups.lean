import Mathlib.Data.Multiset.Basic
import Mathlib.Data.List.Nodup
import Mathlib.Data.List.Induction
import EntityQuery.Proofs.Meaning

/-!
# Groups of keys

Columns whose presence is tested are grouped by the JSON column that they lie in, one column after
the other. The groups are those of `propertiesByPlace`, which looks at all columns at once
(`keyGroups_eq`), since one more column does the same to both (`propertiesByPlace_concat`).

Whatever the order of the columns is, and however often one of them occurs, there is one group for
each JSON column (`apart_propertiesByPlace`), and the groups hold the properties of the columns,
each once. So the groups are determined by the set of the properties (`perm_contents`).
-/

namespace EntityQuery.Drafting

/-! ## §1 Groups and their entries -/

namespace KeyGroup

/-- The JSON column of a group. -/
def place (g : KeyGroup) : String × String :=
  (g.table, g.jsonColumn)

/-- A group without the order of its keys. -/
def content (g : KeyGroup) : (String × String) × Multiset String :=
  (g.place, ↑g.keys)

end KeyGroup

/-- The properties in groups, each with its JSON column. -/
def entries (groups : List KeyGroup) : List ((String × String) × String) :=
  groups.flatMap fun g => g.keys.map (g.place, ·)

/-- There is one group for each JSON column; it has keys, and each of them once. -/
structure Apart (groups : List KeyGroup) : Prop where
  places : (groups.map KeyGroup.place).Nodup
  keys : ∀ g ∈ groups, g.keys.Nodup
  nonempty : ∀ g ∈ groups, g.keys ≠ []

variable {groups groups' : List KeyGroup} {g : KeyGroup} {c : Column} {place : String × String}
  {key : String}

theorem mem_entries :
    (place, key) ∈ entries groups ↔ ∃ g ∈ groups, g.place = place ∧ key ∈ g.keys := by
  simp only [entries, List.mem_flatMap, List.mem_map, Prod.mk.injEq]
  grind

theorem map_snd_entries (groups : List KeyGroup) :
    (entries groups).map (·.2) = groups.flatMap (·.keys) := by
  simp [entries, List.map_flatMap, Function.comp_def]

namespace Apart

theorem eq_of_place_eq (h : Apart groups) {g g' : KeyGroup} (hg : g ∈ groups) (hg' : g' ∈ groups)
    (hplace : g.place = g'.place) : g = g' :=
  List.inj_on_of_nodup_map h.places hg hg' hplace

theorem mem_keys_iff (h : Apart groups) (hg : g ∈ groups) :
    key ∈ g.keys ↔ (g.place, key) ∈ entries groups := by
  rw [mem_entries]
  constructor
  · exact fun hkey => ⟨g, hg, rfl, hkey⟩
  · rintro ⟨g', hg', hplace, hkey⟩
    rwa [h.eq_of_place_eq hg hg' hplace.symm]

theorem nodup_entries (h : Apart groups) : (entries groups).Nodup := by
  refine List.nodup_flatMap.mpr ⟨fun g hg => ?_, ?_⟩
  · exact (h.keys g hg).map fun _ _ heq => (Prod.mk.inj heq).2
  · have hplaces := h.places
    rw [List.Nodup, List.pairwise_map] at hplaces
    refine hplaces.imp fun hne => ?_
    intro entry hentry hentry'
    obtain ⟨_, -, rfl⟩ := List.mem_map.mp hentry
    obtain ⟨_, -, heq⟩ := List.mem_map.mp hentry'
    exact hne (Prod.mk.inj heq).1.symm

/-- Groups are told by their entries. -/
theorem content_mem (h : Apart groups) (h' : Apart groups')
    (hentries : ∀ entry, entry ∈ entries groups ↔ entry ∈ entries groups') (hg : g ∈ groups) :
    g.content ∈ groups'.map KeyGroup.content := by
  obtain ⟨key, hkey⟩ := List.exists_mem_of_ne_nil _ (h.nonempty g hg)
  obtain ⟨g', hg', hplace, -⟩ :=
    mem_entries.mp ((hentries _).mp ((h.mem_keys_iff hg).mp hkey))
  have hkeys : g'.keys.Perm g.keys := by
    rw [List.perm_ext_iff_of_nodup (h'.keys g' hg') (h.keys g hg)]
    intro key
    rw [h'.mem_keys_iff hg', h.mem_keys_iff hg, hplace, hentries]
  exact List.mem_map.mpr ⟨g', hg', by
    rw [KeyGroup.content, KeyGroup.content, hplace, Multiset.coe_eq_coe.mpr hkeys]⟩

theorem nodup_contents (h : Apart groups) : (groups.map KeyGroup.content).Nodup := by
  have hplaces := h.places
  rw [show KeyGroup.place = Prod.fst ∘ KeyGroup.content from rfl, ← List.map_map] at hplaces
  exact hplaces.of_map

/-- The same entries make the same groups, but for the order. -/
theorem perm_contents (h : Apart groups) (h' : Apart groups')
    (hentries : ∀ entry, entry ∈ entries groups ↔ entry ∈ entries groups') :
    (groups.map KeyGroup.content).Perm (groups'.map KeyGroup.content) := by
  rw [List.perm_ext_iff_of_nodup h.nodup_contents h'.nodup_contents]
  intro content
  constructor
  · intro hmem
    obtain ⟨g, hg, rfl⟩ := List.mem_map.mp hmem
    exact h.content_mem h' hentries hg
  · intro hmem
    obtain ⟨g, hg, rfl⟩ := List.mem_map.mp hmem
    exact h'.content_mem h (fun entry => (hentries entry).symm) hg

end Apart

/-! ## §2 First occurrences -/

section FirstOccurrences

variable {α : Type} [BEq α] [LawfulBEq α]

theorem eraseDups_concat_of_mem {xs : List α} {x : α} (h : x ∈ xs) :
    (xs ++ [x]).eraseDups = xs.eraseDups := by
  simp [List.eraseDups_append, List.removeAll, h]

theorem eraseDups_concat_of_not_mem {xs : List α} {x : α} (h : x ∉ xs) :
    (xs ++ [x]).eraseDups = xs.eraseDups ++ [x] := by
  simp [List.eraseDups_append, List.removeAll, List.eraseDups_cons, h]

theorem nodup_eraseDups (xs : List α) : xs.eraseDups.Nodup := by
  -- from the end, since an element is kept where it comes first
  induction xs using List.reverseRecOn with
  | nil => exact List.nodup_nil
  | append_singleton xs x ih =>
    by_cases hx : x ∈ xs
    · rwa [eraseDups_concat_of_mem hx]
    · rw [eraseDups_concat_of_not_mem hx]
      refine List.nodup_append.mpr ⟨ih, List.nodup_singleton x, ?_⟩
      rintro y hy _ hlast rfl
      rw [List.mem_singleton.mp hlast] at hy
      exact hx (List.mem_eraseDups.mp hy)

end FirstOccurrences

/-! ## §3 Columns one after the other -/

/-- A group with the keys that are given for its place. -/
def groupAt (keys : String × String → List String) (place : String × String) : KeyGroup :=
  ⟨place.1, place.2, keys place⟩

theorem groupAt_place_iff {keys : String × String → List String} :
    (groupAt keys place).table = c.table ∧ (groupAt keys place).jsonColumn = c.jsonColumn ↔
      place = c.place := by
  rw [Prod.ext_iff]
  rfl

/-- A column whose place is new makes a group at the end. -/
theorem addKey_of_not_mem {keys : String × String → List String} {places : List (String × String)}
    (h : c.place ∉ places) :
    addKey c (places.map (groupAt keys)) =
      places.map (groupAt keys) ++ [⟨c.table, c.jsonColumn, [c.property]⟩] := by
  induction places with
  | nil => rfl
  | cons first places ih =>
    obtain ⟨hfirst, hplaces⟩ := not_or.mp (mt List.mem_cons.mpr h)
    rw [List.map_cons, addKey, if_neg (mt groupAt_place_iff.mp (Ne.symm hfirst)), ih hplaces]
    rfl

/-- Any other column changes the keys of its place. -/
theorem addKey_of_mem {keys keys' : String × String → List String}
    {places : List (String × String)} (hplaces : places.Nodup) (h : c.place ∈ places)
    (hkeys : keys' c.place =
      if c.property ∈ keys c.place then keys c.place else keys c.place ++ [c.property])
    (hothers : ∀ place, place ≠ c.place → keys' place = keys place) :
    addKey c (places.map (groupAt keys)) = places.map (groupAt keys') := by
  induction places with
  | nil => exact absurd h List.not_mem_nil
  | cons first places ih =>
    obtain ⟨hfirst, hplaces⟩ := List.nodup_cons.mp hplaces
    rw [List.map_cons, addKey]
    by_cases hplace : first = c.place
    · -- no later group has this place, so that the others stay as they are
      subst hplace
      have hkept : places.map (groupAt keys) = places.map (groupAt keys') := by
        apply List.map_congr_left
        intro place hmem
        have hne : place ≠ c.place := fun heq => hfirst (heq ▸ hmem)
        rw [groupAt, groupAt, hothers place hne]
      rw [if_pos ⟨rfl, rfl⟩, List.map_cons, ← hkept, groupAt, groupAt, hkeys]
      split <;> simp_all
    · have hrest : c.place ∈ places := (List.mem_cons.mp h).resolve_left (Ne.symm hplace)
      rw [if_neg (mt groupAt_place_iff.mp hplace), ih hplaces hrest, List.map_cons, groupAt,
        groupAt, hothers first hplace]

/-- The properties of columns in one JSON column, in the order in which they are first met. -/
def propertiesAt (columns : List Column) (place : String × String) : List String :=
  ((columns.filter (·.place = place)).map (·.property)).eraseDups

theorem propertiesByPlace_eq (columns : List Column) :
    propertiesByPlace columns =
      (columns.map Column.place).eraseDups.map (groupAt (propertiesAt columns)) :=
  rfl

theorem mem_propertiesAt {columns : List Column} :
    key ∈ propertiesAt columns place ↔ ∃ c ∈ columns, c.place = place ∧ c.property = key := by
  simp [propertiesAt, List.mem_eraseDups, and_assoc]

/-- No column has put a property in a place that is the place of none. -/
theorem propertiesAt_eq_nil {columns : List Column} (h : place ∉ columns.map Column.place) :
    propertiesAt columns place = [] := by
  apply List.eq_nil_iff_forall_not_mem.mpr
  intro key hkey
  obtain ⟨c, hc, rfl, -⟩ := mem_propertiesAt.mp hkey
  exact h (List.mem_map_of_mem hc)

theorem propertiesAt_concat_of_ne {columns : List Column} (h : place ≠ c.place) :
    propertiesAt (columns ++ [c]) place = propertiesAt columns place := by
  simp [propertiesAt, Ne.symm h]

theorem propertiesAt_concat (columns : List Column) (c : Column) :
    propertiesAt (columns ++ [c]) c.place =
      if c.property ∈ propertiesAt columns c.place then propertiesAt columns c.place
      else propertiesAt columns c.place ++ [c.property] := by
  simp only [propertiesAt, List.filter_append, List.map_append, List.mem_eraseDups]
  have hlast : [c].filter (·.place = c.place) = [c] := by simp
  rw [hlast, List.map_singleton]
  split
  · rename_i hmem
    exact eraseDups_concat_of_mem hmem
  · rename_i hnew
    exact eraseDups_concat_of_not_mem hnew

/-- One more column does to the properties by their places what adding it to the groups does. -/
theorem propertiesByPlace_concat (columns : List Column) (c : Column) :
    propertiesByPlace (columns ++ [c]) = addKey c (propertiesByPlace columns) := by
  rw [propertiesByPlace_eq, propertiesByPlace_eq, List.map_append, List.map_singleton]
  by_cases hplace : c.place ∈ columns.map Column.place
  · rw [eraseDups_concat_of_mem hplace]
    exact (addKey_of_mem (nodup_eraseDups _) (List.mem_eraseDups.mpr hplace)
      (propertiesAt_concat columns c) fun _ hne => propertiesAt_concat_of_ne hne).symm
  · -- its group is a new one, with no key but its own
    have hothers :
        (columns.map Column.place).eraseDups.map (groupAt (propertiesAt (columns ++ [c]))) =
          (columns.map Column.place).eraseDups.map (groupAt (propertiesAt columns)) := by
      apply List.map_congr_left
      intro place hmem
      have hne : place ≠ c.place := fun heq => hplace (heq ▸ List.mem_eraseDups.mp hmem)
      rw [groupAt, groupAt, propertiesAt_concat_of_ne hne]
    rw [eraseDups_concat_of_not_mem hplace, List.map_append, List.map_singleton, hothers,
      addKey_of_not_mem (mt List.mem_eraseDups.mp hplace), groupAt, propertiesAt_concat,
      propertiesAt_eq_nil hplace]
    rfl

/-- The groups that are there when a column comes are those of the columns before it. -/
theorem foldl_addKey (columns before : List Column) :
    columns.foldl (fun groups c => addKey c groups) (propertiesByPlace before) =
      propertiesByPlace (before ++ columns) := by
  induction columns generalizing before with
  | nil => simp
  | cons c columns ih =>
    rw [List.foldl_cons, ← propertiesByPlace_concat, ih, List.append_assoc, List.singleton_append]

/-- The groups of columns are the properties of those that do not identify rows, by their places. -/
theorem keyGroups_eq (columns : List Column) :
    keyGroups columns = propertiesByPlace (columns.filter (!·.isIdentifier)) :=
  foldl_addKey (columns.filter (!·.isIdentifier)) []

/-! ## §4 What is in the groups -/

/-- The entry of a column. -/
def entry (c : Column) : (String × String) × String :=
  (c.place, c.property)

theorem apart_propertiesByPlace (columns : List Column) : Apart (propertiesByPlace columns) where
  places := by
    have hplaces : (propertiesByPlace columns).map KeyGroup.place =
        (columns.map Column.place).eraseDups := by
      rw [propertiesByPlace_eq, List.map_map]
      exact List.map_id _
    exact hplaces ▸ nodup_eraseDups _
  keys := by
    intro g hg
    obtain ⟨place, -, rfl⟩ := List.mem_map.mp hg
    exact nodup_eraseDups _
  nonempty := by
    intro g hg
    obtain ⟨place, hplace, rfl⟩ := List.mem_map.mp hg
    -- the column that the place is that of has put its property there
    obtain ⟨c, hc, rfl⟩ := List.mem_map.mp (List.mem_eraseDups.mp hplace)
    exact List.ne_nil_of_mem (mem_propertiesAt.mpr ⟨c, hc, rfl, rfl⟩)

theorem mem_entries_propertiesByPlace {columns : List Column} {e : (String × String) × String} :
    e ∈ entries (propertiesByPlace columns) ↔ ∃ c ∈ columns, e = entry c := by
  obtain ⟨place, key⟩ := e
  rw [mem_entries]
  constructor
  · rintro ⟨g, hg, rfl, hkey⟩
    obtain ⟨place, -, rfl⟩ := List.mem_map.mp hg
    obtain ⟨c, hc, rfl, rfl⟩ := mem_propertiesAt.mp hkey
    exact ⟨c, hc, rfl⟩
  · rintro ⟨c, hc, heq⟩
    obtain ⟨rfl, rfl⟩ := Prod.mk.inj heq
    have hplace : c.place ∈ (columns.map Column.place).eraseDups :=
      List.mem_eraseDups.mpr (List.mem_map_of_mem hc)
    exact ⟨_, List.mem_map_of_mem hplace, rfl, mem_propertiesAt.mpr ⟨c, hc, rfl, rfl⟩⟩

/-- A group lies in the JSON column of one of the columns. -/
theorem exists_column_of_mem_propertiesByPlace {columns : List Column}
    (h : g ∈ propertiesByPlace columns) :
    ∃ c ∈ columns, g.table = c.table ∧ g.jsonColumn = c.jsonColumn := by
  obtain ⟨place, hplace, rfl⟩ := List.mem_map.mp h
  obtain ⟨c, hc, rfl⟩ := List.mem_map.mp (List.mem_eraseDups.mp hplace)
  exact ⟨c, hc, rfl, rfl⟩

end EntityQuery.Drafting
