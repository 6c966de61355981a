import EntityQuery.Proofs.Sql.Lexer
import EntityQuery.Proofs.Sql.Reading
import EntityQuery.Sql.Query

/-!
# Statements are legible

Fragments are put together at blanks, commas, parentheses and brackets, where tokens cannot run
into each other. So a statement can be read back from its text if the names in it are identifiers.
-/

namespace EntityQuery.Sql

/-! ## §1 Putting fragments together -/

namespace Token

@[simp] theorem isBreak_breaks : space.isBreak ∧ (symbol .comma).isBreak ∧
    (symbol .openParen).isBreak ∧ (symbol .closeParen).isBreak ∧
    (symbol .openBracket).isBreak ∧ (symbol .closeBracket).isBreak := by
  decide

@[simp] theorem spelled_keyword (k : Keyword) : (keyword k).Spelled :=
  trivial

theorem spelled_of_isBreak {t : Token} (h : t.isBreak) : t.Spelled := by
  cases t <;> trivial

@[simp] theorem mayFollow_of_isBreak_left {t : Token} (ht : t.isBreak) (u : Token) :
    t.mayFollow u := by
  unfold mayFollow
  split <;> simp_all

@[simp] theorem mayFollow_of_isBreak_right (t : Token) {u : Token} (hu : u.isBreak) :
    t.mayFollow u := by
  unfold mayFollow
  split <;> simp_all

end Token

section Legible

variable {t b : Token} {us vs : List Token}

/-- A break makes no demand on what follows. -/
theorem legibleAfter_break (hb : b.isBreak) : b.LegibleAfter us ↔ Legible us := by
  -- as a blank does, so that it may stand where a fragment begins
  cases us with
  | nil => exact Iff.rfl
  | cons u us =>
    have hu := Token.mayFollow_of_isBreak_left hb u
    have hu' := Token.mayFollow_of_isBreak_left Token.isBreak_breaks.1 u
    rw [Legible, Token.LegibleAfter, Token.LegibleAfter, hu, hu']

@[simp] theorem legibleAfter_cons_break (hb : b.isBreak) :
    t.LegibleAfter (b :: us) ↔ Legible us := by
  simp [Token.LegibleAfter, Token.spelled_of_isBreak hb, Token.mayFollow_of_isBreak_right t hb,
    legibleAfter_break hb]

@[simp] theorem legibleAfter_append_break (hb : b.isBreak) :
    t.LegibleAfter (us ++ b :: vs) ↔ t.LegibleAfter us ∧ Legible vs := by
  -- the break separates what is before it from what is behind, whatever their tokens are
  induction us generalizing t with
  | nil => simp [hb, Token.LegibleAfter]
  | cons u us ih => simp [Token.LegibleAfter, ih, and_assoc]

@[simp] theorem legibleAfter_nil : t.LegibleAfter [] :=
  trivial

@[simp] theorem legible_nil : Legible [] :=
  trivial

theorem legible_cons : Legible (t :: us) ↔ t.Spelled ∧ t.LegibleAfter us := by
  rw [Legible, Token.LegibleAfter, Token.mayFollow_of_isBreak_left Token.isBreak_breaks.1]
  simp

@[simp] theorem legible_cons_break (hb : b.isBreak) : Legible (b :: us) ↔ Legible us :=
  legibleAfter_cons_break hb

@[simp] theorem legible_append_break (hb : b.isBreak) :
    Legible (us ++ b :: vs) ↔ Legible us ∧ Legible vs :=
  legibleAfter_append_break hb

@[simp] theorem legibleAfter_parenthesized :
    t.LegibleAfter (parenthesized us) ↔ Legible us := by
  simp [parenthesized]

@[simp] theorem legible_parenthesized : Legible (parenthesized us) ↔ Legible us :=
  legibleAfter_parenthesized

theorem legible_joinedByComma {parts : List (List Token)} (h : ∀ part ∈ parts, Legible part) :
    Legible (joinedByComma parts) := by
  -- between two parts stand a comma and a blank, and these are breaks
  induction parts with
  | nil => exact legible_nil
  | cons part parts ih =>
    have hpart := h part List.mem_cons_self
    have hparts := ih fun part' hpart' => h part' (List.mem_cons_of_mem _ hpart')
    cases parts with
    | nil => exact hpart
    | cons second others =>
      rw [joinedByComma_cons_cons]
      simp [hpart, hparts]

theorem legible_commaList_placeholders (numbers : List Nat) :
    Legible (commaList (numbers.map .placeholder)) := by
  apply legible_joinedByComma
  intro part hpart
  rw [List.map_map] at hpart
  obtain ⟨n, -, rfl⟩ := List.mem_map.mp hpart
  exact legible_cons.mpr ⟨trivial, trivial⟩

end Legible

/-! ## §2 Tests and conditions -/

end EntityQuery.Sql

namespace EntityQuery

/-- The names of where a column is read are identifiers. -/
def Access.Spelled : Access → Prop
  | .localIdentifier table | .parentIdentifier table => isIdentifier table
  | .property table jsonColumn _ => isIdentifier table ∧ isIdentifier jsonColumn

/-- The names of a cast are identifiers. -/
def Cast.Spelled (cast : Cast) : Prop :=
  isIdentifier cast.function ∧ isIdentifier cast.sqlType

end EntityQuery

namespace EntityQuery.Sql

/-- The names in a test are identifiers. -/
def Test.Spelled {α : Type} : Test α → Prop
  | .compare column cast _ _ => column.Spelled ∧ ∀ c ∈ cast, c.Spelled
  | .like column _ | .columnMatches column _ => column.Spelled
  | .rowMatches table _ => isIdentifier table
  | .hasKey table jsonColumn _ | .hasKeys table jsonColumn _ =>
    isIdentifier table ∧ isIdentifier jsonColumn
  | .isValue .. | .isOneOf .. | .isPublic | .always => True

theorem legible_column {table c : String} (htable : isIdentifier table) (hc : isIdentifier c) :
    Legible (column table c) := by
  simp [column, legible_cons, Token.LegibleAfter, Token.Spelled, Token.mayFollow, htable, hc]

theorem legible_access {column : Access} (h : column.Spelled) : Legible column.tokens := by
  cases column with
  | localIdentifier table | parentIdentifier table => exact legible_column h rfl
  | property table jsonColumn key =>
    obtain ⟨htable, hjson⟩ := h
    simp [Access.tokens, column, legible_cons, Token.LegibleAfter, Token.Spelled, Token.mayFollow,
      htable, hjson]

theorem legible_call {name : String} {argument : List Token} (hname : isIdentifier name)
    (h : Legible argument) : Legible (call name argument) := by
  simp [call, legible_cons, Token.Spelled, hname, h]

theorem legible_token {t : Token} (h : t.Spelled) : Legible [t] :=
  legible_cons.mpr ⟨h, trivial⟩

theorem Test.legible {t : Test Nat} (h : t.Spelled) : Legible t.tokens := by
  have hsearch : ∀ n, Legible (searchOf n) :=
    fun n => legible_call rfl (legible_token trivial)
  -- a test is written around one column or row, of which the names are identifiers
  cases t with
  | compare column cast operator value =>
    obtain ⟨hcolumn, hcast⟩ := h
    cases cast with
    | none =>
      simp [tokens, spaced, legible_access hcolumn, legible_cons, Token.Spelled,
        Token.LegibleAfter]
    | some cast =>
      obtain ⟨hfunction, htype⟩ := hcast cast rfl
      simp [tokens, spaced, legible_call hfunction (legible_access hcolumn), legible_cons,
        Token.Spelled, Token.LegibleAfter, Token.mayFollow, htype]
  | like column pattern =>
    simp [tokens, legible_access h, legible_cons, Token.Spelled, Token.LegibleAfter]
  | columnMatches column search =>
    have hcall := legible_call (show isIdentifier "to_tsvector" from rfl) (legible_access h)
    simp [tokens, spaced, hcall, hsearch, legible_cons, Token.Spelled]
  | rowMatches table search =>
    have hcolumn := legible_column h (show isIdentifier "tsv" from rfl)
    simp [tokens, spaced, hcolumn, hsearch, legible_cons, Token.Spelled]
  | hasKey table jsonColumn key =>
    simp [tokens, spaced, legible_column h.1 h.2, legible_cons, Token.Spelled, Token.LegibleAfter]
  | hasKeys table jsonColumn keys =>
    simp [tokens, spaced, legible_column h.1 h.2, legible_commaList_placeholders, legible_cons,
      Token.Spelled]
  | isValue c value =>
    have hcolumn : Legible (column expeditionsTable c.name) :=
      legible_column rfl (by cases c <;> rfl)
    simp [tokens, spaced, hcolumn, legible_cons, Token.Spelled, Token.LegibleAfter]
  | isOneOf c values =>
    have hcolumn : Legible (column expeditionsTable c.name) :=
      legible_column rfl (by cases c <;> rfl)
    simp [tokens, hcolumn, legible_commaList_placeholders, legible_cons, Token.Spelled]
  | isPublic =>
    have hcolumn : Legible (column expeditionsTable "public") :=
      legible_column rfl rfl
    simp [tokens, spaced, hcolumn, legible_cons, Token.Spelled, Token.LegibleAfter]
  | always => exact legible_token trivial

/-- A condition is legible if the names in its tests are identifiers. -/
theorem Condition.legible {c : Condition} (h : ∀ t ∈ c.formula.atoms, t.Spelled) :
    Legible c.tokens := by
  -- connectives stand between blanks, so that only tests matter
  induction c with
  | test t => exact Test.legible (h t (by simp [formula, Formula.atoms]))
  | not c ih => simp [tokens, legible_cons, Token.Spelled, ih h]
  | and left right ihl ihr | or left right ihl ihr =>
    have hleft := ihl fun t ht => h t (List.mem_append_left _ ht)
    have hright := ihr fun t ht => h t (List.mem_append_right _ ht)
    simp [tokens, legible_cons, Token.Spelled, hleft, hright]
  | group c ih => exact legible_parenthesized.mpr (ih h)

/-! ## §3 Statements -/

/-- The names of a table are identifiers. -/
structure TableRef.Spelled (t : TableRef) : Prop where
  schema : ∀ s ∈ t.schema, isIdentifier s
  table : isIdentifier t.table
  rename : ∀ s ∈ t.rename, isIdentifier s

/-- The fragments of a statement are legible and the names in it are identifiers. -/
structure Query.Spelled (q : Query) : Prop where
  select : ∀ item ∈ q.select, Legible item.expr ∧ ∀ s ∈ item.label, s ≠ ""
  source : ∀ t ∈ q.source, t.Spelled
  joins : ∀ j ∈ q.joins, j.table.Spelled ∧ Legible j.on
  filter : Legible q.filter
  orderBy : ∀ part ∈ q.orderBy, Legible part

/-- What can be written after a fragment: nothing, or a blank and then more. -/
def Appendable (tokens : List Token) : Prop :=
  tokens = [] ∨ ∃ rest, tokens = .space :: rest ∧ Legible rest

namespace Appendable

variable {us vs : List Token}

theorem legible_append (hus : Legible us) (hvs : Appendable vs) : Legible (us ++ vs) := by
  rcases hvs with rfl | ⟨rest, rfl, hrest⟩
  · simpa using hus
  · simp [hus, hrest]

theorem append (hus : Appendable us) (hvs : Appendable vs) : Appendable (us ++ vs) := by
  rcases hus with rfl | ⟨rest, rfl, hrest⟩
  · simpa using hvs
  · exact .inr ⟨rest ++ vs, by simp, hvs.legible_append hrest⟩

theorem flatMap {α : Type} {f : α → List Token} {xs : List α} (h : ∀ x ∈ xs, Appendable (f x)) :
    Appendable (xs.flatMap f) := by
  -- each of the fragments brings the blank that it begins with
  induction xs with
  | nil => exact .inl rfl
  | cons x xs ih =>
    rw [List.flatMap_cons]
    exact (h x List.mem_cons_self).append (ih fun y hy => h y (List.mem_cons_of_mem _ hy))

theorem clause (keyword : Keyword) {body : List Token} (h : Legible body) :
    Appendable (clause keyword body) :=
  .inr ⟨_, rfl, by simp [legible_cons, Token.Spelled, h]⟩

theorem clause? (keyword : Keyword) {body : Option (List Token)} (h : ∀ b ∈ body, Legible b) :
    Appendable (clause? keyword body) := by
  cases body with
  | none => exact .inl rfl
  | some body => exact .clause keyword (h body rfl)

theorem renamed {name : Option Token} (h : ∀ t ∈ name, t.Spelled) : Appendable (renamed name) := by
  cases name with
  | none => exact .inl rfl
  | some t =>
    have ht := h t rfl
    exact .inr ⟨_, rfl, by simp [legible_cons, ht]⟩

end Appendable

theorem TableRef.Spelled.legible {t : TableRef} (h : t.Spelled) : Legible t.tokens := by
  -- a name with a database schema in front is one token
  have hname : (Token.qualified t.schema t.table).Spelled := by
    cases hschema : t.schema with
    | none => exact h.table
    | some s => exact ⟨h.schema s hschema, h.table⟩
  have hrenamed : Appendable (renamed (t.rename.map .name)) := by
    apply Appendable.renamed
    intro token htoken
    obtain ⟨s, hs, rfl⟩ := Option.map_eq_some_iff.mp htoken
    exact h.rename s hs
  exact hrenamed.legible_append (legible_token hname)

theorem legible_item {item : SelectItem} (hexpr : Legible item.expr)
    (hlabel : ∀ s ∈ item.label, s ≠ "") : Legible item.tokens := by
  apply Appendable.legible_append hexpr
  apply Appendable.renamed
  intro token htoken
  obtain ⟨s, hs, rfl⟩ := Option.map_eq_some_iff.mp htoken
  exact hlabel s hs

theorem legible_join {j : Join} (htable : j.table.Spelled) (hon : Legible j.on) :
    Legible j.tokens := by
  simp [Join.tokens, legible_cons, Token.Spelled, htable.legible, hon]

/-- A statement is legible if its names are identifiers. -/
theorem Query.Spelled.legible {q : Query} (h : q.Spelled) : Legible q.tokens := by
  have hselect : Legible (joinedByComma (q.select.map SelectItem.tokens)) := by
    apply legible_joinedByComma
    intro part hpart
    obtain ⟨item, hitem, rfl⟩ := List.mem_map.mp hpart
    exact legible_item (h.select item hitem).1 (h.select item hitem).2
  have hsource : Appendable (clause? .FROM (q.source.map TableRef.tokens)) := by
    apply Appendable.clause?
    intro b hb
    obtain ⟨t, ht, rfl⟩ := Option.map_eq_some_iff.mp hb
    exact (h.source t ht).legible
  have hjoins : Appendable (q.joins.flatMap fun j => .space :: j.tokens) := by
    apply Appendable.flatMap
    intro j hj
    exact .inr ⟨_, rfl, legible_join (h.joins j hj).1 (h.joins j hj).2⟩
  have hfilter : Appendable (if q.filter.isEmpty then [] else clause .WHERE q.filter) := by
    split
    · exact .inl rfl
    · exact .clause .WHERE h.filter
  have horder : Appendable
      (if q.orderBy.isEmpty then [] else clause .ORDER_BY (joinedByComma q.orderBy)) := by
    split
    · exact .inl rfl
    · exact .clause .ORDER_BY (legible_joinedByComma h.orderBy)
  -- a number is legible by itself
  have hnumber : ∀ (keyword : Keyword) (n : Option Nat),
      Appendable (clause? keyword (n.map ([.number ·]))) := by
    intro keyword n
    apply Appendable.clause?
    intro b hb
    obtain ⟨m, -, rfl⟩ := Option.map_eq_some_iff.mp hb
    exact legible_token trivial
  have hstart : Legible ([.keyword .SELECT, .space] ++
      joinedByComma (q.select.map SelectItem.tokens)) := by
    simp [legible_cons, Token.Spelled, hselect]
  -- each clause begins with a blank, so that they can be added one by one
  exact (hnumber .LIMIT q.limit).legible_append ((hnumber .OFFSET q.offset).legible_append
    (horder.legible_append (hfilter.legible_append (hjoins.legible_append
      (hsource.legible_append hstart)))))

end EntityQuery.Sql
