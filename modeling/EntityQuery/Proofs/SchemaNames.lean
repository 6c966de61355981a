import Mathlib.Data.List.Basic
import EntityQuery.JoinPlan

/-!
# Names of a schema

What a schema guarantees about the names that statements are written with. Every entity has an
identifier for a name, and whatever is looked up in a schema, by its name, by a column or along the
hierarchy, is an entity of the schema.
-/

namespace EntityQuery

/-! ## §1 Entities -/

theorem isIdentifierPart_of_mem {name : String} (h : isIdentifier name) {c : Char}
    (hc : c ∈ name.toList) : isIdentifierPart c := by
  unfold isIdentifier at h
  cases hname : name.toList with
  | nil => simp [hname] at hc
  | cons first others =>
    simp only [hname, Bool.and_eq_true, List.all_eq_true] at h hc
    rcases List.mem_cons.mp hc with rfl | hc
    · -- what may come first may come anywhere
      have hstart := h.1
      simp only [isIdentifierStart, Bool.or_eq_true] at hstart
      simp only [isIdentifierPart, Char.isAlphanum, Bool.or_eq_true]
      exact hstart.imp_left .inl
    · exact h.2 c hc

/-- There is no quote in an identifier that would be written twice. -/
theorem Sql.quoted_of_isIdentifier {quote : Char} {name : String} (hname : isIdentifier name)
    (hquote : isIdentifierPart quote = false) :
    quoted quote name = String.ofList [quote] ++ name ++ String.ofList [quote] := by
  have hsame : (name.toList.flatMap fun c => if c = quote then [c, c] else [c]) = name.toList := by
    have hne : ∀ c ∈ name.toList, (if c = quote then [c, c] else [c]) = [c] := by
      intro c hc
      apply if_neg
      rintro rfl
      exact absurd (isIdentifierPart_of_mem hname hc) (by simp [hquote])
    rw [List.flatMap_congr hne, List.flatMap_singleton']
  apply String.toList_injective
  simp [quoted, hsame]

theorem isIdentifier_of_entityViolation? {e : Entity} (h : entityViolation? e = none) :
    isIdentifier e.name := by
  unfold entityViolation? at h
  split at h
  · exact absurd h (by simp)
  · rename_i hname
    simpa using hname

theorem entityViolation?_of_mem {earlier : List String} {es : List Entity}
    (h : firstEntityViolation? earlier es = none) : ∀ e ∈ es, entityViolation? e = none := by
  -- on the entities, of which each is checked with the names of those before it
  induction es generalizing earlier with
  | nil => exact fun e he => absurd he List.not_mem_nil
  | cons first others ih =>
    unfold firstEntityViolation? at h
    split at h
    · exact absurd h (by simp)
    · rename_i hfirst
      split at h
      · exact absurd h (by simp)
      · intro e he
        rcases List.mem_cons.mp he with rfl | he
        · exact hfirst
        · exact ih h e he

namespace Schema

variable {s : Schema}

theorem isIdentifier_name_of_mem {e : Entity} (he : e ∈ s.entities) : isIdentifier e.name := by
  have hvalid := s.valid
  unfold violation? at hvalid
  split at hvalid
  · exact absurd hvalid (by simp)
  · rename_i hfirst
    exact isIdentifier_of_entityViolation? (entityViolation?_of_mem hfirst e he)

/-- The names are those of entities of the schema. -/
def Declares (s : Schema) (names : List String) : Prop :=
  ∀ name ∈ names, ∃ e ∈ s.entities, e.name = name

theorem Declares.isIdentifier {names : List String} (h : s.Declares names) :
    ∀ name ∈ names, isIdentifier name := by
  intro name hname
  obtain ⟨e, he, rfl⟩ := h name hname
  exact isIdentifier_name_of_mem he

theorem mem_entities_of_entity? {name : String} {e : Entity} (h : s.entity? name = some e) :
    e ∈ s.entities ∧ e.name = name := by
  refine ⟨List.mem_of_find?_eq_some h, ?_⟩
  simpa using List.find?_some h

/-! ## §2 Columns -/

theorem mem_of_pick {policy : ColumnPolicy} {root column : String} {es : List Entity} {e : Entity}
    (h : pick policy root column es = .ok e) : e ∈ es := by
  -- a single owner is picked under every policy, so the list is taken apart first
  match es, policy, h with
  | [only], _, h =>
    obtain rfl : only = e := by simpa [pick] using h
    exact List.mem_cons_self
  | first :: second :: others, .strict, h => simp [pick] at h
  | first :: second :: others, .declarationOrder, h =>
    obtain rfl : first = e := by simpa [pick] using h
    exact List.mem_cons_self
  | first :: second :: others, .preferRoot, h =>
    simp only [pick, Except.ok.injEq] at h
    -- the root is preferred only if it has the column
    cases hroot : (first :: second :: others).find? (·.name == root) with
    | none =>
      obtain rfl : first = e := by rwa [hroot] at h
      exact List.mem_cons_self
    | some found =>
      obtain rfl : found = e := by rwa [hroot] at h
      exact List.mem_of_find?_eq_some hroot

end Schema

theorem Column.source_of_ofEntity? {s : Schema} {e : Entity} {column : String} {c : Column}
    (h : Column.ofEntity? s e column = some c) : c.source = .entity e := by
  unfold Column.ofEntity? at h
  obtain ⟨a, -, rfl⟩ := Option.map_eq_some_iff.mp h
  rfl

namespace Schema

variable {s : Schema}

/-- A column that is found belongs to an entity of the schema or to the expeditions. -/
theorem owner_mem_of_resolve {policy : ColumnPolicy} {root token : String} {c : Column}
    {owner : Entity} (h : s.resolve policy root token = .ok c) (hc : c.source = .entity owner) :
    owner ∈ s.entities := by
  -- whichever way the token goes, the column is one of an entity that was looked up
  have hof : ∀ {e column}, e ∈ s.entities → Column.ofEntity? s e column = some c →
      owner ∈ s.entities := by
    intro e column he hcolumn
    have hsource := Column.source_of_ofEntity? hcolumn
    rw [hc, ColumnSource.entity.injEq] at hsource
    exact hsource ▸ he
  unfold resolve at h
  split at h
  · rename_i qualifier column _
    unfold resolveQualified at h
    split at h
    · split at h
      · exact absurd h (by simp)
      · obtain rfl := Except.ok.inj h
        exact absurd hc (by simp [Column.ofMetadata])
    · split at h
      · exact absurd h (by simp)
      · rename_i e he
        split at h
        · exact absurd h (by simp)
        · rename_i c' hc'
          obtain rfl := Except.ok.inj h
          exact hof (mem_entities_of_entity? he).1 hc'
  · unfold resolvePlain at h
    split at h
    · exact absurd h (by simp)
    · rename_i e hpick
      split at h
      · exact absurd h (by simp)
      · rename_i c' hc'
        obtain rfl := Except.ok.inj h
        exact hof (List.mem_filter.mp (mem_of_pick hpick)).1 hc'

theorem isIdentifier_table_of_resolve {policy : ColumnPolicy} {root token : String} {c : Column}
    (h : s.resolve policy root token = .ok c) : isIdentifier c.table := by
  unfold Column.table
  split
  · rename_i owner howner
    exact isIdentifier_name_of_mem (owner_mem_of_resolve h howner)
  · decide

theorem isIdentifier_jsonColumn (c : Column) : isIdentifier c.jsonColumn := by
  unfold Column.jsonColumn
  split <;> decide

/-! ## §3 Paths -/

theorem parent?_mem {e parent : Entity} (h : s.parent? e = some parent) : parent ∈ s.entities := by
  obtain ⟨name, -, hname⟩ := Option.bind_eq_some_iff.mp h
  exact (mem_entities_of_entity? hname).1

theorem mem_of_pathFrom? {top : String} {fuel : Nat} {e : Entity} {path : List Entity}
    (he : e ∈ s.entities) (h : s.pathFrom? top fuel e = some path) :
    ∀ e' ∈ path, e' ∈ s.entities := by
  -- on the fuel; a path consists of the entity and of a path from its parent
  induction fuel generalizing e path with
  | zero => exact absurd h (by simp [pathFrom?])
  | succ fuel ih =>
    unfold pathFrom? at h
    split at h
    · obtain rfl := Option.some.inj h
      intro e' he'
      rwa [List.mem_singleton.mp he']
    · split at h
      · rename_i parent hparent
        obtain ⟨above, habove, rfl⟩ := Option.map_eq_some_iff.mp h
        intro e' he'
        rcases List.mem_append.mp he' with he' | he'
        · exact ih (parent?_mem hparent) habove e' he'
        · rwa [List.mem_singleton.mp he']
      · exact absurd h (by simp)

theorem mem_of_path? {ancestor descendant : String} {path : List Entity}
    (h : s.path? ancestor descendant = some path) : ∀ e ∈ path, e ∈ s.entities := by
  unfold path? at h
  split at h
  · rename_i e he
    split at h
    · exact absurd h (by simp)
    · exact mem_of_pathFrom? (mem_entities_of_entity? he).1 h
  · exact absurd h (by simp)

/-- The links between two entities are links between entities of the schema. -/
theorem mem_of_descent {ancestor descendant : String} {path : List (Entity × Entity)}
    (h : s.descent ancestor descendant = .ok path) :
    ∀ link ∈ path, link.1 ∈ s.entities ∧ link.2 ∈ s.entities := by
  unfold descent at h
  split at h
  · obtain rfl := Except.ok.inj h
    exact fun link hlink => absurd hlink List.not_mem_nil
  · split at h
    · rename_i entities hpath
      -- links pair an entity of the path with the one behind it
      obtain rfl := Except.ok.inj h
      intro link hlink
      have hmem := List.of_mem_zip hlink
      exact ⟨mem_of_path? hpath _ hmem.1, mem_of_path? hpath _ (List.mem_of_mem_tail hmem.2)⟩
    · exact absurd h (by simp)

end Schema

/-! ## §4 Join plans -/

/-- A step of several succeeds if each of them does. -/
theorem exists_of_bind_eq_ok {ε α β : Type} {x : Except ε α} {f : α → Except ε β} {b : β}
    (h : x >>= f = .ok b) : ∃ a, x = .ok a ∧ f a = .ok b := by
  cases x with
  | error e => exact absurd h (by simp [Bind.bind, Except.bind])
  | ok a => exact ⟨a, rfl, h⟩

/-- A hop whose tables have identifiers for names. -/
structure Hop.Spelled (hop : Hop) : Prop where
  table : isIdentifier hop.table
  child : isIdentifier hop.child
  parent : isIdentifier hop.parent

namespace JoinRequest

variable {s : Schema} {r : JoinRequest}

theorem spelled_of_route {name : String} {hops : List Hop} (h : r.route s name = .ok hops) :
    ∀ hop ∈ hops, hop.Spelled := by
  unfold route at h
  split at h
  · exact absurd h (by simp)
  · rename_i meeting _
    obtain ⟨up, hup, h⟩ := exists_of_bind_eq_ok h
    obtain ⟨down, hdown, h⟩ := exists_of_bind_eq_ok h
    obtain rfl := Except.ok.inj h
    have hname : ∀ {e : Entity}, e ∈ s.entities → isIdentifier e.name :=
      Schema.isIdentifier_name_of_mem
    intro hop hhop
    -- the hops are the links up, in reverse, and then the links down
    rcases List.mem_append.mp hhop with hhop | hhop
    · obtain ⟨⟨parent, child⟩, hlink, rfl⟩ := List.mem_map.mp hhop
      obtain ⟨hparent, hchild⟩ := Schema.mem_of_descent hup _ (List.mem_reverse.mp hlink)
      exact ⟨hname hparent, hname hchild, hname hparent⟩
    · obtain ⟨⟨parent, child⟩, hlink, rfl⟩ := List.mem_map.mp hhop
      obtain ⟨hparent, hchild⟩ := Schema.mem_of_descent hdown _ hlink
      exact ⟨hname hchild, hname hchild, hname hparent⟩

theorem spelled_of_routes {names : List String} {hops : List Hop}
    (h : r.routes s names = .ok hops) : ∀ hop ∈ hops, hop.Spelled := by
  induction names generalizing hops with
  | nil =>
    obtain rfl := Except.ok.inj h
    exact fun hop hhop => absurd hhop List.not_mem_nil
  | cons name names ih =>
    obtain ⟨first, hfirst, h⟩ := exists_of_bind_eq_ok h
    obtain ⟨others, hothers, h⟩ := exists_of_bind_eq_ok h
    obtain rfl := Except.ok.inj h
    intro hop hhop
    rcases List.mem_append.mp hhop with hhop | hhop
    · exact spelled_of_route hfirst hop hhop
    · exact ih hothers hop hhop

theorem mem_of_mem_newHops {joined : List String} {hops : List Hop} {hop : Hop}
    (h : hop ∈ newHops joined hops) : hop ∈ hops := by
  induction hops generalizing joined with
  | nil => exact absurd h List.not_mem_nil
  | cons first others ih =>
    -- hops are left out here, and never put in
    unfold newHops at h
    split at h
    · exact List.mem_cons_of_mem _ (ih h)
    · rcases List.mem_cons.mp h with rfl | h
      · exact List.mem_cons_self
      · exact List.mem_cons_of_mem _ (ih h)

theorem mem_of_mem_sortDistinct {α : Type} {before : α → α → Bool} {x : α} {xs : List α}
    (h : x ∈ sortDistinct before xs) : x ∈ xs := by
  -- inserting adds the element itself and nothing else
  have hinsert : ∀ (y : α) (ys : List α), x ∈ insertSorted before y ys → x = y ∨ x ∈ ys := by
    intro y ys hx
    induction ys with
    | nil => exact .inl (List.mem_singleton.mp hx)
    | cons z zs ih =>
      unfold insertSorted at hx
      split at hx
      · exact List.mem_cons.mp hx
      · split at hx
        · rcases List.mem_cons.mp hx with rfl | hx
          · exact .inr List.mem_cons_self
          · exact (ih hx).imp_right (List.mem_cons_of_mem _)
        · exact .inr hx
  induction xs with
  | nil => exact h
  | cons y ys ih =>
    rcases hinsert y _ h with rfl | h
    · exact List.mem_cons_self
    · exact List.mem_cons_of_mem _ (ih h)

end JoinRequest

end EntityQuery
