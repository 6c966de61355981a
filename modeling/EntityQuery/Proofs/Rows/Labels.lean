import EntityQuery.Proofs.BoundLiterals
import EntityQuery.Proofs.Collectors
import EntityQuery.Proofs.Rows.Pages

/-!
# Labels

A client finds the values of a row under the labels of its columns. The labels of an entity are its
name with one of two endings, and those of the expeditions are fixed. An entity may be named like a
label, or like another entity with an ending. Still every label tells where it comes from: its last
character tells the ending, and what stands before the ending is the name. So two labels are the
same only if an entity is shown twice (`Draft.nodup_labels_iff`), and no entity is, however often
it is selected.

Labels are compared as they are written. What a database does with labels that are too long for it
is left out.
-/

namespace EntityQuery

open Sql (Joined Lexeme Query SelectItem Test columnValue?)

/-! ## §1 Labels of entities -/

/-- The last character of a label. -/
def lastChar? (label : String) : Option Char :=
  label.toList.getLast?

theorem lastChar?_append_data (entity : String) : lastChar? (entity ++ "_data") = some 'a' := by
  simp [lastChar?]

theorem lastChar?_append_rootIdentifier (entity : String) :
    lastChar? (entity ++ "_rootIdentifier") = some 'r' := by
  simp [lastChar?]

theorem append_data_ne_append_rootIdentifier (a b : String) :
    a ++ "_data" ≠ b ++ "_rootIdentifier" := by
  intro h
  have hlast := congrArg lastChar? h
  rw [lastChar?_append_data, lastChar?_append_rootIdentifier] at hlast
  exact absurd hlast (by decide)

theorem nodup_entityLabels (entity : String) : (entityLabels entity).Nodup := by
  simp [entityLabels]

/-- A label is one of a single entity. -/
theorem eq_of_mem_entityLabels {a b label : String} (ha : label ∈ entityLabels a)
    (hb : label ∈ entityLabels b) : a = b := by
  -- the endings are the same, and then the names are, or they differ in their last character
  rcases List.mem_pair.mp ha with rfl | rfl <;> rcases List.mem_pair.mp hb with h | h
  · exact (String.append_left_inj _).mp h
  · exact absurd h (append_data_ne_append_rootIdentifier a b)
  · exact absurd h.symm (append_data_ne_append_rootIdentifier b a)
  · exact (String.append_left_inj _).mp h

theorem disjoint_entityLabels_iff {a b : String} :
    (entityLabels a).Disjoint (entityLabels b) ↔ a ≠ b := by
  constructor
  · rintro hdisjoint rfl
    exact hdisjoint List.mem_cons_self List.mem_cons_self
  · exact fun hne label ha hb => hne (eq_of_mem_entityLabels ha hb)

/-- No entity has a label of the expeditions. -/
theorem disjoint_expeditionLabels (entity : String) :
    ["expeditionCode", "projectId"].Disjoint (entityLabels entity) := by
  intro label hexpedition hentity
  have hlast : lastChar? label = some 'e' ∨ lastChar? label = some 'd' := by
    rcases List.mem_pair.mp hexpedition with rfl | rfl
    · exact .inl (by decide)
    · exact .inr (by decide)
  rcases List.mem_pair.mp hentity with rfl | rfl
  · rw [lastChar?_append_data] at hlast
    exact absurd hlast (by decide)
  · rw [lastChar?_append_rootIdentifier] at hlast
    exact absurd hlast (by decide)

theorem nodup_flatMap_entityLabels_iff {names : List String} :
    (names.flatMap entityLabels).Nodup ↔ names.Nodup := by
  rw [List.nodup_flatMap, and_iff_right fun name _ => nodup_entityLabels name]
  exact List.Pairwise.iff fun _ _ => disjoint_entityLabels_iff

/-! ## §2 Labels of statements -/

/-- The labels of a statement are all different exactly if the entities are that it shows. -/
theorem Draft.nodup_labels_iff {d : Draft} {scope : Scope} :
    (d.labels scope).Nodup ↔ (d.shown scope).Nodup := by
  -- the labels of the root stand apart from those of the other entities
  have hperm : (d.labels scope).Perm
      (["expeditionCode", "projectId"] ++ (d.shown scope).flatMap entityLabels) := by
    rw [shown, List.flatMap_cons, ← List.append_assoc]
    exact List.perm_append_comm.append_right _
  have hdisjoint : ["expeditionCode", "projectId"].Disjoint
      ((d.shown scope).flatMap entityLabels) := by
    intro label hexpedition hlabel
    obtain ⟨name, -, hentity⟩ := List.mem_flatMap.mp hlabel
    exact disjoint_expeditionLabels name hexpedition hentity
  rw [hperm.nodup_iff, List.nodup_append', nodup_flatMap_entityLabels_iff]
  exact ⟨fun h => h.2.1, fun h => ⟨by decide, h, hdisjoint⟩⟩

namespace Compiles

variable {s : Schema} {root : String} {e : Expression} {o : CompileOptions} {scope : Scope}
  {d : Draft} {steps : List JoinStep} {q : Query}

/-- No entity is shown twice, and the root is not shown again. -/
theorem nodup_shown (h : Compiles s root e o scope d steps q) : (d.shown scope).Nodup := by
  refine List.nodup_cons.mpr ⟨fun hmem => ?_, scope.schema.nodup_inOrder _⟩
  rw [h.schema_eq, h.root_eq] at hmem
  exact (h.mem_selection_iff.mp hmem).2 rfl

theorem map_label_select (h : Compiles s root e o scope d steps q) :
    q.select.map (·.label) = (d.labels scope).map some := by
  have hentity : ∀ entity, (entityItems entity).map (·.label) = (entityLabels entity).map some :=
    fun _ => rfl
  rw [h.select_eq, Draft.labels]
  simp only [List.map_append, List.map_flatMap, hentity]
  rfl

/-- Nothing in the text of a statement is in double quotes but its labels. -/
theorem filterMap_quotedName? (h : Compiles s root e o scope d steps q) :
    (q.tokens.flatMap Sql.Token.lexemes).filterMap Lexeme.quotedName? = d.labels scope := by
  rw [Sql.filterMap_lexemes fun _ hl => (Lexeme.selections_eq_none hl).2.1, h.content_tokens]
  simp [Test.content, List.filterMap_flatMap, Lexeme.quotedName?, Function.comp_def]

end Compiles

/-! ## §3 Reading by label -/

/-- What a client receives for a joined row: the values of the columns, each under its label. -/
def Sql.Query.received (q : Query) (ρ : Joined) : List (String × Option String) :=
  q.select.filterMap fun item => item.label.map (·, columnValue? ρ item.expr)

/-- If all labels are different, a client finds under a label the value of its column and no
other. -/
theorem Sql.Query.mem_received_iff {q : Query} (hnodup : (q.select.map (·.label)).Nodup)
    {item : SelectItem} (hitem : item ∈ q.select) {label : String}
    (hlabel : item.label = some label) {ρ : Joined} {value : Option String} :
    (label, value) ∈ q.received ρ ↔ value = columnValue? ρ item.expr := by
  rw [received, List.mem_filterMap]
  constructor
  · intro h
    obtain ⟨other, hother, hreceived⟩ := h
    obtain ⟨_, hlabel', heq⟩ := Option.map_eq_some_iff.mp hreceived
    obtain ⟨rfl, rfl⟩ := Prod.mk.inj heq
    -- two items with one label are the same item
    rw [List.inj_on_of_nodup_map hnodup hother hitem (hlabel'.trans hlabel.symm)]
  · rintro rfl
    exact ⟨item, hitem, by rw [hlabel, Option.map_some]⟩

/-- The columns of a compiled statement can be told by their labels. What its text has in double
quotes are the labels of the root, of the expeditions and of each selected entity other than the
root, and no two of them are the same. So whatever rows are joined, each column has a label, and a
client finds under it the value of this column and no other. -/
theorem Schema.compile_labels_columns {s : Schema} {root : String} {e : Expression}
    {o : CompileOptions} {p : Sql.Prepared} (hp : s.compile root e o = .ok p) :
    ∃ scope d steps q lexemes, ∃ shown labels : List String,
      Compiles s root e o scope d steps q ∧ p = ⟨q.text, d.params⟩ ∧
      (∀ name, name ∈ shown ↔ name ∈ e.selection ∧ name ≠ root) ∧
      q.select = entityItems root ++ expeditionItems ++ shown.flatMap entityItems ∧
      Sql.lex? p.text = some lexemes ∧ lexemes.filterMap Lexeme.quotedName? = labels ∧
      labels = entityLabels root ++ ["expeditionCode", "projectId"] ++
        shown.flatMap entityLabels ∧
      labels.Nodup ∧
      ∀ ρ, ∀ item ∈ q.select, ∃ label ∈ labels, item.label = some label ∧
        ∀ value, (label, value) ∈ q.received ρ ↔ value = columnValue? ρ item.expr := by
  obtain ⟨scope, d, steps, q, hcompiles, rfl⟩ := exists_compiles hp
  have hnodup := Draft.nodup_labels_iff.mpr hcompiles.nodup_shown
  have hlabels : (q.select.map (·.label)).Nodup := by
    rw [hcompiles.map_label_select]
    exact hnodup.map fun _ _ => Option.some.inj
  refine ⟨scope, d, steps, q, _, d.joins.selection s, d.labels scope, hcompiles, rfl, ?_, ?_,
    hcompiles.lex?_text, hcompiles.filterMap_quotedName?, ?_, hnodup, ?_⟩
  · exact fun name => hcompiles.mem_selection_iff
  · rw [hcompiles.select_eq, hcompiles.root_eq, hcompiles.schema_eq]
  · rw [Draft.labels, hcompiles.root_eq, hcompiles.schema_eq]
  · intro ρ item hitem
    have hmem : item.label ∈ (d.labels scope).map some := by
      rw [← hcompiles.map_label_select]
      exact List.mem_map_of_mem hitem
    obtain ⟨label, hlabel, heq⟩ := List.mem_map.mp hmem
    exact ⟨label, hlabel, heq.symm, fun value => Query.mem_received_iff hlabels hitem heq.symm⟩

/-- Events with entities below them that are named like labels. -/
def Schema.labelled : Schema where
  entities :=
    [⟨"Event", none, "eventID", [⟨"eventID", "urn:eventID", .string⟩]⟩,
     ⟨"Event_data", some "Event", "dataID", [⟨"dataID", "urn:dataID", .string⟩]⟩,
     ⟨"projectId", some "Event_data", "numberID", [⟨"numberID", "urn:numberID", .string⟩]⟩]
  metadata := []
  valid := by decide

/-- All events with what is below them, in part selected more than once, and the root with it. -/
def Expression.selectedAgain : Expression :=
  .logical .and (.group (.selectWith ["Event_data", "Event", "Event_data"] .all))
    (.select ["projectId", "Event_data"])

/-- The data of the events and of what is below them can be told apart. -/
theorem Schema.compile_labels_columns_labelled :
    ∃ p lexemes, ∃ q : Query, ∃ labels : List String,
      Schema.labelled.compile "Event" .selectedAgain {} = .ok p ∧ p.text = q.text ∧
      Sql.lex? p.text = some lexemes ∧ lexemes.filterMap Lexeme.quotedName? = labels ∧
      "Event_data" ∈ labels ∧ "Event_data_data" ∈ labels ∧ "projectId" ∈ labels ∧
      "projectId_data" ∈ labels ∧ labels.Nodup ∧
      ∀ ρ value, ("Event_data", value) ∈ q.received ρ ↔ value = (ρ "Event").bind (· "data") := by
  have hp : Schema.labelled.compile "Event" .selectedAgain {} = .ok _ := rfl
  obtain ⟨_, d, _, q, lexemes, shown, labels, -, htext, hshown, hselect, hlex, hquoted, hlabels,
    hnodup, hreceived⟩ := compile_labels_columns hp
  have hselection : Expression.selectedAgain.selection = ["Event", "Event_data", "projectId"] := by
    decide
  have hdata : "Event_data" ∈ shown := (hshown _).mpr (by simp [hselection])
  have hproject : "projectId" ∈ shown := (hshown _).mpr (by simp [hselection])
  refine ⟨_, lexemes, q, labels, hp, congrArg Sql.Prepared.text htext, hlex, hquoted, ?_, ?_, ?_,
    ?_, hnodup, ?_⟩
  · simp [hlabels, entityLabels]
  · rw [hlabels]
    exact List.mem_append_right _ (List.mem_flatMap.mpr ⟨_, hdata, List.mem_cons_self⟩)
  · simp [hlabels]
  · rw [hlabels]
    exact List.mem_append_right _ (List.mem_flatMap.mpr ⟨_, hproject, List.mem_cons_self⟩)
  · intro ρ value
    have hitem : .ofColumn "Event" "data" (some "Event_data") ∈ q.select := by
      simp [hselect, entityItems]
    obtain ⟨label, -, hlabel, hvalue⟩ := hreceived ρ _ hitem
    obtain rfl : "Event_data" = label := Option.some.inj hlabel
    exact hvalue value

end EntityQuery
