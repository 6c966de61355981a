import EntityQuery.Proofs.Hierarchy.Agreement
import EntityQuery.Proofs.Rows.Selection

/-!
# A database with two rows of one parent

For each entity of a schema there is a consistent database in which this entity has two rows under
one parent. Each entity below it has two rows as well, one under each row of its parent, and every
other entity has one row. There is one expedition, and no row has other identifiers.
-/

namespace EntityQuery

open Sql (Database Row)

/-! ## §1 Rows -/

/-- A row of an entity in the one expedition: its own identifier and that of its parent. -/
def Sql.Row.record (key parent : String) : Row
  | "local_identifier" => some key
  | "parent_identifier" => some parent
  | "expedition_id" => some "1"
  | _ => none

namespace Schema

variable {s : Schema} {fork name : String}

/-- The identifiers of the rows of an entity: two from the fork downwards, and one elsewhere. -/
def forkedKeys (s : Schema) (fork name : String) : List String :=
  if name = fork ∨ s.isDescendant name fork then ["1", "2"] else ["1"]

/-- The row of an entity with an identifier. Both rows of the fork have one parent. -/
def forkedRow (fork name key : String) : Row :=
  .record key (if name = fork then "1" else key)

theorem forkedKeys_of_atOrAbove (h : s.AtOrAbove fork name) :
    s.forkedKeys fork name = ["1", "2"] := by
  apply if_pos
  by_cases heq : name = fork
  · exact .inl heq
  · exact .inr (isDescendant_iff.mpr ⟨h, fun h => heq h.symm⟩)

theorem forkedKeys_of_not_atOrAbove (h : ¬ s.AtOrAbove fork name) :
    s.forkedKeys fork name = ["1"] := by
  apply if_neg
  rw [isDescendant_iff, not_or]
  exact ⟨fun heq => h (heq ▸ .refl _), fun hbelow => h hbelow.1⟩

theorem one_mem_forkedKeys (s : Schema) (fork name : String) : "1" ∈ s.forkedKeys fork name := by
  unfold forkedKeys
  split <;> exact List.mem_cons_self

theorem nodup_forkedKeys (s : Schema) (fork name : String) : (s.forkedKeys fork name).Nodup := by
  unfold forkedKeys
  split <;> decide

/-- The identifier of one row of an entity: the given one if it has it, or else that of its only
row. -/
def forkedKey (s : Schema) (fork key name : String) : String :=
  if key ∈ s.forkedKeys fork name then key else "1"

theorem forkedKey_mem (s : Schema) (fork key name : String) :
    s.forkedKey fork key name ∈ s.forkedKeys fork name := by
  unfold forkedKey
  split
  · assumption
  · exact s.one_mem_forkedKeys fork name

theorem forkedKey_of_atOrAbove (h : s.AtOrAbove fork name) {key : String}
    (hkey : key ∈ ["1", "2"]) : s.forkedKey fork key name = key :=
  if_pos (forkedKeys_of_atOrAbove h ▸ hkey)

theorem forkedKey_of_not_atOrAbove (h : ¬ s.AtOrAbove fork name) (key : String) :
    s.forkedKey fork key name = "1" := by
  -- there is one row only, so the given identifier is that one or is not taken
  have hmem := s.forkedKey_mem fork key name
  rw [forkedKeys_of_not_atOrAbove h] at hmem
  exact List.mem_singleton.mp hmem

/-- A row is a child of the row of its parent with the same identifier, and of the only one at the
fork. -/
theorem isChildOf_forkedRow {parent : String} (hlink : s.IsParent parent name)
    (fork key : String) :
    (forkedRow fork name (s.forkedKey fork key name)).IsChildOf
      (forkedRow fork parent (s.forkedKey fork key parent)) := by
  refine ⟨s.forkedKey fork key parent, "1", ?_, rfl, rfl, rfl⟩
  apply congrArg some
  by_cases heq : name = fork
  · rw [if_pos heq, forkedKey_of_not_atOrAbove (heq ▸ AtOrAbove.not_of_isParent hlink)]
  · rw [if_neg heq]
    -- below the fork and elsewhere, a child has as many rows as its parent
    have hbelow : s.AtOrAbove fork name ↔ s.AtOrAbove fork parent := by
      rw [AtOrAbove.iff_of_isParent hlink]
      exact or_iff_right fun h => heq h.symm
    have hkeys : s.forkedKeys fork name = s.forkedKeys fork parent := by
      by_cases hfork : s.AtOrAbove fork name
      · rw [forkedKeys_of_atOrAbove hfork, forkedKeys_of_atOrAbove (hbelow.mp hfork)]
      · rw [forkedKeys_of_not_atOrAbove hfork,
          forkedKeys_of_not_atOrAbove fun h => hfork (hbelow.mpr h)]
    rw [forkedKey, forkedKey, hkeys]

end Schema

/-! ## §2 Tables -/

/-- The database in which rows fork at an entity. -/
def Sql.Database.forked (s : Schema) (network : Nat) (fork : String) : Database
  | none, table => if table = expeditionsTable then [.expedition] else []
  | some schema, table =>
    if schema = networkSchema network then
      (s.forkedKeys fork table).map (Schema.forkedRow fork table)
    else []

namespace Sql.Database

variable {s : Schema} {network : Nat} {fork : String}

theorem rowsOf_forked (name : String) : (forked s network fork).rowsOf (entityTable network name) =
    (s.forkedKeys fork name).map (Schema.forkedRow fork name) := by
  simp [rowsOf, entityTable, forked]

theorem mem_rowsOf_forked {name : String} {r : Row} :
    r ∈ (forked s network fork).rowsOf (entityTable network name) ↔
      ∃ key ∈ s.forkedKeys fork name, Schema.forkedRow fork name key = r := by
  rw [rowsOf_forked, List.mem_map]

theorem consistent_forked (s : Schema) (network : Nat) (fork : String) :
    (forked s network fork).Consistent s network where
  identified e _ := by
    rw [rowsOf_forked, List.map_map]
    apply (s.nodup_forkedKeys fork e.name).map
    intro key key' heq
    exact Option.some.inj (Prod.mk.inj heq).2
  parents parent child hlink r hr := by
    obtain ⟨key, hkey, rfl⟩ := mem_rowsOf_forked.mp hr
    have hchild := Schema.isChildOf_forkedRow hlink fork key
    rw [Schema.forkedKey, if_pos hkey] at hchild
    exact ⟨_, mem_rowsOf_forked.mpr ⟨_, s.forkedKey_mem fork key parent, rfl⟩, hchild⟩
  expeditions := List.nodup_singleton _
  covered e _ r hr := by
    obtain ⟨key, -, rfl⟩ := mem_rowsOf_forked.mp hr
    exact ⟨.expedition, List.mem_cons_self, "1", rfl, rfl⟩
  identifiers := List.nodup_nil

end Sql.Database

end EntityQuery
