import Mathlib.Data.List.Basic
import EntityQuery.Proofs.StatementText
import EntityQuery.Proofs.Sql.Content

/-!
# Literals are bound

What the text of a compiled statement holds beside the words of the language: labels and names of
entities, properties of columns, and the placeholders of the bound values. The placeholders are
counted through from one, and the values are the literals of the expression from left to right, so
no literal is lost, bound twice or moved.
-/

namespace EntityQuery

open Sql (Condition Lexeme Test)

/-! ## §1 Items and joins -/

/-- The labels of what is read from an entity. -/
def entityLabels (entity : String) : List String :=
  [entity ++ "_data", entity ++ "_rootIdentifier"]

theorem content_entityItems (entity : String) :
    (entityItems entity).flatMap (Sql.content ·.tokens) =
      (entityLabels entity).map .quotedName := by
  simp [entityItems, entityLabels, Sql.SelectItem.ofColumn]

/-- The entity whose identifiers a step joins. -/
def JoinStep.owners : JoinStep → List String
  | identifiers owner => [owner]
  | entity _ | expeditions _ => []

theorem JoinStep.content_toJoin (network : Nat) (step : JoinStep) :
    Sql.content (step.toJoin network).on = step.owners.map .string := by
  cases step <;> simp [toJoin, owners, both, equal, Sql.Token.content]

/-- Identifiers are joined for the root and for each entity that is added to the result. -/
theorem JoinRequest.owners_of_plan {s : Schema} {r : JoinRequest} {steps : List JoinStep}
    (h : r.plan s = .ok steps) : steps.flatMap JoinStep.owners = r.root :: r.selection s := by
  unfold plan at h
  obtain ⟨hops, -, h⟩ := exists_of_bind_eq_ok h
  obtain rfl := Except.ok.inj h
  have hend : (if r.expeditions then [JoinStep.expeditions r.root] else []).flatMap
      JoinStep.owners = [] := by
    split <;> rfl
  rw [List.flatMap_append, List.flatMap_append, hend]
  simp [List.flatMap_map, JoinStep.owners]

/-! ## §2 Statements -/

namespace Draft

/-- The entities in the result of a statement, the root first. -/
def shown (d : Draft) (scope : Scope) : List String :=
  scope.root :: d.joins.selection scope.schema

/-- The labels of a statement. -/
def labels (d : Draft) (scope : Scope) : List String :=
  entityLabels scope.root ++ ["expeditionCode", "projectId"] ++
    (d.joins.selection scope.schema).flatMap entityLabels

/-- The restriction to public expeditions adds words only. -/
theorem content_filter (d : Draft) (publicOnly : Bool) :
    Sql.content ((d.filter publicOnly).elim [] Condition.tokens) =
      (Condition.tests d.condition).flatMap Test.content := by
  have hpublic : Test.isPublic.content = [] := rfl
  unfold filter
  split
  · cases d.condition <;>
      simp [narrowToPublic, Condition.tests, Condition.formula, Formula.atoms, hpublic]
  · cases d.condition <;> simp [Condition.tests]

end Draft

/-- The content of an assembled statement from left to right. -/
theorem Assembles.content_tokens {d : Draft} {scope : Scope} {network : Nat} {publicOnly : Bool}
    {p : Pagination} {steps : List JoinStep} {rows : Option Window} {q : Sql.Query}
    (h : Assembles d scope network publicOnly p steps rows q)
    (hroot : d.joins.root = scope.root) :
    Sql.content q.tokens = (d.labels scope).map .quotedName ++ (d.shown scope).map .string ++
      (Condition.tests d.condition).flatMap Test.content := by
  have hjoins : d.finalJoins.root = scope.root := hroot
  -- strings stand in the joins of identifiers, and labels in the items
  have howners := JoinRequest.owners_of_plan h.plan
  obtain rfl := h.query
  rw [Sql.Query.content_tokens]
  have hselect : (d.statement scope network publicOnly
      (steps.map (JoinStep.toJoin network)) rows).select.flatMap (Sql.content ·.tokens) =
        (d.labels scope).map .quotedName := by
    simp only [Draft.statement, List.flatMap_append, content_entityItems, List.flatMap_assoc]
    simp [Draft.labels, expeditionItems, Sql.SelectItem.ofColumn, List.map_flatMap]
    rfl
  have hjoined : (steps.map (JoinStep.toJoin network)).flatMap (Sql.content ·.on) =
      (d.shown scope).map .string := by
    have hshown : d.shown scope = steps.flatMap JoinStep.owners := by
      rw [howners, hjoins]
      rfl
    rw [hshown, List.map_flatMap, List.flatMap_map]
    exact congrArg steps.flatMap (funext (JoinStep.content_toJoin network))
  have horder : (rootOrder scope.root).flatMap Sql.content = [] := by
    simp [rootOrder]
  rw [hselect]
  show _ ++ (steps.map (JoinStep.toJoin network)).flatMap (Sql.content ·.on) ++
    Sql.content ((d.filter publicOnly).elim [] Condition.tokens) ++
    (rootOrder scope.root).flatMap Sql.content = _
  rw [hjoined, d.content_filter, horder, List.append_nil]

/-- The placeholders of an assembled statement are those of its condition. -/
theorem Assembles.filterMap_placeholder? {d : Draft} {scope : Scope} {network : Nat}
    {publicOnly : Bool} {p : Pagination} {steps : List JoinStep} {rows : Option Window}
    {q : Sql.Query} (h : Assembles d scope network publicOnly p steps rows q)
    (hroot : d.joins.root = scope.root) :
    (q.tokens.flatMap Sql.Token.lexemes).filterMap Lexeme.placeholder? =
      ((Condition.tests d.condition).flatMap Test.values).map toString := by
  rw [Sql.filterMap_lexemes fun _ hl => (Lexeme.selections_eq_none hl).2.2, h.content_tokens hroot]
  simp [Test.content, List.filterMap_flatMap, Lexeme.placeholder?, Function.comp_def,
    List.map_flatMap]
  rfl

namespace Compiles

variable {s : Schema} {root : String} {e : Expression} {o : CompileOptions} {scope : Scope}
  {d : Draft} {steps : List JoinStep} {q : Sql.Query}

theorem content_tokens (h : Compiles s root e o scope d steps q) :
    Sql.content q.tokens = (d.labels scope).map .quotedName ++ (d.shown scope).map .string ++
      (Condition.tests d.condition).flatMap Test.content := by
  obtain ⟨limit, rows, -, hassembles⟩ := h.assembled
  exact hassembles.content_tokens h.joins_root

/-- The visit has bound the literals of the expression, and the condition uses their numbers. -/
theorem values_params (h : Compiles s root e o scope d steps q) :
    d.params.values = e.literals scope := by
  obtain ⟨d', hwrites, hparams, -⟩ := h.exists_writes
  rw [← hparams, hwrites.values_params]
  rfl

theorem flatMap_values_tests (h : Compiles s root e o scope d steps q) :
    (Condition.tests d.condition).flatMap Test.values =
      List.range' 1 (e.literals scope).length := by
  obtain ⟨d', hwrites, -, -⟩ := h.exists_writes
  exact hwrites.flatMap_values_tests

theorem flatMap_properties_tests (h : Compiles s root e o scope d steps q) :
    (Condition.tests d.condition).flatMap Test.properties =
      (e.nodes.flatMap scope.predicates).flatMap Test.properties := by
  obtain ⟨d', hwrites, -, -⟩ := h.exists_writes
  rw [← hwrites.map_tests, List.flatMap_map]
  simp only [Test.properties_map]

end Compiles

/-! ## §3 The text -/

/-- What stands in the text of a compiled statement, and what is bound to it. Its labels and strings
are those of the root, of the selected entities and of the properties that are read, whatever
characters these have; its placeholders are the keys of the bound values in their order, and the
values are the literals of the expression from left to right. -/
theorem Schema.compile_binds_literals {s : Schema} {root : String} {e : Expression}
    {o : CompileOptions} {p : Sql.Prepared} (h : s.compile root e o = .ok p) :
    ∃ scope d lexemes, s.scope o.policy root = .ok scope ∧
      scope.emptyDraft.visit scope e = (.ok (), d) ∧
      Sql.lex? p.text = some lexemes ∧
      lexemes.filterMap Lexeme.quotedName? = d.labels scope ∧
      lexemes.filterMap Lexeme.string? =
        d.shown scope ++ (e.nodes.flatMap scope.predicates).flatMap Test.properties ∧
      lexemes.filterMap Lexeme.placeholder? =
        (List.range' 1 (e.literals scope).length).map toString ∧
      p.params.entries.map (·.1) = (List.range' 1 (e.literals scope).length).map toString ∧
      p.params.entries.map (·.2) = e.literals scope := by
  obtain ⟨scope, d, steps, q, hcompiles, rfl⟩ := exists_compiles h
  have hvalues := hcompiles.values_params
  -- each of the three selections passes over the other two kinds of content
  have hselect : ∀ f : Lexeme → Option String, (∀ l, l.isContent = false → f l = none) →
      (q.tokens.flatMap Sql.Token.lexemes).filterMap f =
        (d.labels scope).filterMap (f ∘ .quotedName) ++ (d.shown scope).filterMap (f ∘ .string) ++
          (Condition.tests d.condition).flatMap fun t =>
            t.properties.filterMap (f ∘ .string) ++
              t.values.filterMap (f ∘ fun n => .placeholder (toString n)) := by
    intro f hf
    rw [Sql.filterMap_lexemes hf, hcompiles.content_tokens]
    simp only [Test.content, List.filterMap_append, List.filterMap_map, List.filterMap_flatMap]
  -- the text is read back as its tokens, so that their content is that of the lexemes
  refine ⟨scope, d, _, hcompiles.inScope, hcompiles.visited, hcompiles.lex?_text, ?_, ?_, ?_, ?_,
    ?_⟩
  · rw [hselect _ (by rintro (_ | _) h <;> simp_all [Lexeme.isContent, Lexeme.quotedName?])]
    simp [Lexeme.quotedName?, Function.comp_def]
  · rw [hselect _ (by rintro (_ | _) h <;> simp_all [Lexeme.isContent, Lexeme.string?])]
    rw [← hcompiles.flatMap_properties_tests]
    simp [Lexeme.string?, Function.comp_def]
  · rw [hselect _ (by rintro (_ | _) h <;> simp_all [Lexeme.isContent, Lexeme.placeholder?])]
    rw [← hcompiles.flatMap_values_tests]
    simp [Lexeme.placeholder?, Function.comp_def, List.map_flatMap]
    rfl
  · rw [Sql.Params.keys_entries, hvalues]
  · rw [Sql.Params.values_entries, hvalues]

/-- Searches with several words and with one, for rows and for a column; properties of two JSON
columns, of which some are named twice and one identifies rows; and a range with its upper bound
first. -/
def Expression.searchedFieldwork : Expression :=
  .logical .and (.logical .or (.search none " tree\tfrog ") (.search (some "genus") "Conus"))
    (.logical .and
      (.present ["expedition.funding", "genus", "eventID", "expedition.leader", "Sample.genus"])
      (.logical .or (.range "year" "<2010 and >=2000")
        (.logical .and (.expedition ["MBIO", "PSAM"]) (.project [7]))))

theorem Schema.compile_binds_literals_fieldwork :
    ∃ p lexemes, Schema.fieldwork.compile "Event" .searchedFieldwork {} = .ok p ∧
      Sql.lex? p.text = some lexemes ∧
      lexemes.filterMap Lexeme.quotedName? =
        ["Event_data", "Event_rootIdentifier", "expeditionCode", "projectId"] ∧
      lexemes.filterMap Lexeme.string? = ["Event", "urn:'genus", "urn:year", "urn:year"] ∧
      lexemes.filterMap Lexeme.placeholder? =
        ["1", "2", "3", "4", "5", "6", "7", "8", "9", "10", "11"] ∧
      p.params.entries =
        [("1", "tree & frog"), ("2", "Conus"), ("3", "Conus"), ("4", "funding"), ("5", "leader"),
          ("6", "urn:'genus"), ("7", "2000"), ("8", "2010"), ("9", "MBIO"), ("10", "PSAM"),
          ("11", "7")] := by
  obtain ⟨p, hcompile⟩ : ∃ p, Schema.fieldwork.compile "Event" .searchedFieldwork {} = .ok p :=
    exists_of_isOk (by decide +kernel)
  obtain ⟨scope, d, lexemes, hscope, hvisit, hlex, hlabels, hstrings, hplaceholders, hkeys,
    hvalues⟩ := compile_binds_literals hcompile
  obtain rfl : Scope.fieldwork = scope := Except.ok.inj hscope
  obtain rfl : (Scope.fieldwork.emptyDraft.visit .fieldwork .searchedFieldwork).2 = d :=
    congrArg Prod.snd hvisit
  have hliterals : Expression.searchedFieldwork.literals .fieldwork =
      ["tree & frog", "Conus", "Conus", "funding", "leader", "urn:'genus", "2000", "2010", "MBIO",
        "PSAM", "7"] := by
    decide +kernel
  rw [hliterals] at hplaceholders hkeys hvalues
  refine ⟨p, lexemes, hcompile, hlex, hlabels.trans (by decide +kernel),
    hstrings.trans (by decide +kernel), hplaceholders, ?_⟩
  exact List.zip_of_prod hkeys hvalues

end EntityQuery
