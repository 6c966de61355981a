import Mathlib.Order.Interval.Set.Defs
import EntityQuery.Proofs.Clauses
import EntityQuery.Proofs.Rows.Pages

/-!
# Windows

A page is a window of the rows: some of them are left out and so many are read. The windows of the
pages under the same options have one size, do not overlap and leave no gaps, since a number of rows
that does not fit 64 bits is refused and never wrapped around.

A statement for a page is the statement for all rows followed by its window, and there is one unless
the window is empty or lies too far behind (`Schema.compile_pages`).
-/

namespace EntityQuery

open Sql (Query Token)

/-! ## §1 Windows of rows -/

namespace Window

/-- The numbers of the rows in a window. -/
def rows (w : Window) : Set Nat :=
  Set.Ico w.offset (w.offset + w.limit)

/-- How a window is written at the end of a statement. -/
def text (w : Window) : String :=
  " OFFSET " ++ toString w.offset ++ " LIMIT " ++ toString w.limit

end Window

/-- The rows of a page of a size, where the first page has number zero. -/
def windowOf (size page : Nat) : Window :=
  ⟨page * size, size⟩

theorem windowOf_succ (size page : Nat) :
    (windowOf size (page + 1)).offset =
      (windowOf size page).offset + (windowOf size page).limit := by
  show (page + 1) * size = page * size + size
  exact Nat.succ_mul page size

/-- A page ends before any later page starts. -/
theorem windowOf_le {size page later : Nat} (h : page < later) :
    (windowOf size page).offset + (windowOf size page).limit ≤ (windowOf size later).offset := by
  rw [← windowOf_succ]
  exact Nat.mul_le_mul_right size h

/-- Windows of different pages have no row in common. -/
theorem notMem_rows_windowOf {size page page' : Nat} (h : page ≠ page') :
    ∀ row ∈ (windowOf size page).rows, row ∉ (windowOf size page').rows := by
  intro row hrow hrow'
  -- either page may be the earlier one
  rcases lt_or_gt_of_ne h with hlt | hlt
  · exact absurd (hrow'.1.trans_lt hrow.2) (not_lt_of_ge (windowOf_le hlt))
  · exact absurd (hrow.1.trans_lt hrow'.2) (not_lt_of_ge (windowOf_le hlt))

/-! ## §2 Statements with a window -/

/-- A statement with a window for its rows. -/
def Sql.Query.within (q : Query) (w : Option Window) : Query :=
  { q with offset := w.map (·.offset), limit := w.map (·.limit) }

theorem Sql.Query.within_none {q : Query} (hoffset : q.offset = none) (hlimit : q.limit = none) :
    q.within none = q := by
  cases q
  simp_all [within]

/-- A window is written behind the rest of the statement. -/
theorem Sql.Query.text_within {q : Query} (hoffset : q.offset = none) (hlimit : q.limit = none)
    (w : Window) : (q.within (some w)).text = q.text ++ w.text := by
  have htokens : (q.within (some w)).tokens =
      q.tokens ++ [.space, .keyword .OFFSET, .space, .number w.offset, .space, .keyword .LIMIT,
        .space, .number w.limit] := by
    simp [within, tokens, hoffset, hlimit, clause?, clause]
  rw [text, htokens, render_append]
  -- what is left is the text of the window alone
  congr 1
  apply String.toList_injective
  simp [render, Token.text, Keyword.text, Window.text]

/-- The statement of a draft for another part of the rows differs in its window. -/
theorem Assembles.query_eq_within {d : Draft} {scope : Scope} {network : Nat} {publicOnly : Bool}
    {p : Pagination} {steps : List JoinStep} {rows : Option Window} {q : Query}
    (h : Assembles d scope network publicOnly p steps rows q) (p' : Pagination) :
    d.query scope network publicOnly p' =
      if p'.limit = some 0 then .error (.invalid .zeroLimit) else p'.window.map q.within := by
  have hjoins : d.finalJoins.joins scope.schema network =
      .ok (steps.map (JoinStep.toJoin network)) := by
    rw [JoinRequest.joins, h.plan]
    rfl
  -- page and limit come after the condition and the joins, and these are as before
  unfold Draft.query
  rw [h.condition, hjoins, h.query]
  by_cases hlimit : p'.limit = some 0
  · simp only [if_pos hlimit]
    rfl
  · simp only [if_neg hlimit]
    cases p'.window <;> rfl

/-- Whether the rows before a page can be counted decides whether it has a window. -/
theorem Pagination.window_eq (page : Option Nat) (size : Nat) :
    Pagination.window ⟨page, some size⟩ =
      if page.getD 0 * size < numbersOf 64 then .ok (some (windowOf size (page.getD 0)))
      else .error (.invalid .pageOutOfRange) := by
  -- an offset is not negative, so only the upper bound counts
  have hfits : fitsUnsigned 64 (page.getD 0 * size : Nat) = true ↔
      page.getD 0 * size < numbersOf 64 := by
    rw [fitsUnsigned_iff]
    omega
  unfold window
  simp only [hfits]
  rfl

/-! ## §3 Pages of a compiled query -/

namespace CompileOptions

/-- The same options for a request that names neither page nor limit. -/
def unpaged (o : CompileOptions) : CompileOptions :=
  { o with page := none, limit := none }

/-- The page that is asked for. It is the first one unless the request says otherwise. -/
def wantedPage (o : CompileOptions) : Nat :=
  o.page.getD 0

/-- The options ask for a page that has rows and is not too far behind: the number of rows before it
fits 64 bits. -/
def HasPage (o : CompileOptions) (limit : Nat) : Prop :=
  0 < limit ∧ 0 < o.pageSize limit ∧ o.wantedPage * o.pageSize limit < numbersOf 64

instance (o : CompileOptions) (limit : Nat) : Decidable (o.HasPage limit) :=
  inferInstanceAs (Decidable (_ ∧ _ ∧ _))

/-- The window of a page under a limit. -/
def windowAt (o : CompileOptions) (limit page : Nat) : Window :=
  windowOf (o.pageSize limit) page

variable {o : CompileOptions} {limit : Nat}

theorem effectiveLimit_of_zero (hlimit : o.limit = some 0) :
    o.effectiveLimit = .error (.invalid .zeroLimit) := by
  unfold effectiveLimit
  rw [hlimit]
  rfl

theorem effectiveLimit_of_ne_zero (hlimit : o.limit = some limit) (hzero : limit ≠ 0) :
    o.effectiveLimit = .ok (some (o.pageSize limit)) := by
  unfold effectiveLimit
  rw [hlimit]
  cases limit with
  | zero => exact absurd rfl hzero
  | succ limit => rfl

/-- A limit of zero has pages of no rows. -/
theorem hasPage_iff : o.HasPage limit ↔
    o.pageSize limit ≠ 0 ∧ o.wantedPage * o.pageSize limit < numbersOf 64 := by
  -- the size of a page is at most the limit
  have hlimit : o.pageSize limit ≠ 0 → 0 < limit :=
    fun h => (Nat.pos_of_ne_zero h).trans_le (Nat.min_le_left _ _)
  unfold HasPage
  rw [Nat.pos_iff_ne_zero (n := o.pageSize limit)]
  exact ⟨fun h => h.2, fun h => ⟨hlimit h.1, h⟩⟩

end CompileOptions

section Pages

variable {s : Schema} {root : String} {e : Expression} {o : CompileOptions} {scope : Scope}
  {d : Draft} {steps : List JoinStep} {q : Query} {limit : Nat}

namespace Compiles

/-- A query without limit has no window. -/
theorem window_eq_none (h : Compiles s root e o.unpaged scope d steps q) :
    q.offset = none ∧ q.limit = none := by
  obtain ⟨limit, rows, hlimit, hassembles⟩ := h.assembled
  obtain rfl : none = limit := Except.ok.inj hlimit
  obtain rfl : none = rows := Except.ok.inj hassembles.window
  rw [hassembles.query]
  exact ⟨rfl, rfl⟩

/-- A query that compiles without pages is decided by its window alone. -/
theorem compile_eq_within (h : Compiles s root e o.unpaged scope d steps q) :
    s.compile root e o = o.effectiveLimit.bind fun limit =>
      if limit = some 0 then .error (.invalid .zeroLimit)
      else (Pagination.window ⟨o.page, limit⟩).map fun w => ⟨(q.within w).text, d.params⟩ := by
  obtain ⟨_, _, -, hassembles⟩ := h.assembled
  -- scope and draft do not depend on the page
  have hscope : s.scope o.policy root = .ok scope := h.inScope
  have hquery : ∀ p, d.query scope o.network o.publicOnly p =
      if p.limit = some 0 then .error (.invalid .zeroLimit) else p.window.map q.within :=
    hassembles.query_eq_within
  rw [Schema.compile_eq_of_visit hscope h.visited]
  congr 1
  funext limit
  rw [Draft.prepare, hquery]
  -- with a limit of zero both give the error before the window is looked at
  split
  · rfl
  · cases Pagination.window ⟨o.page, limit⟩ <;> rfl

theorem compile_of_no_limit (h : Compiles s root e o.unpaged scope d steps q)
    (hlimit : o.limit = none) : s.compile root e o = .ok ⟨q.text, d.params⟩ := by
  obtain ⟨hoffset, hrows⟩ := h.window_eq_none
  rw [h.compile_eq_within, CompileOptions.effectiveLimit, hlimit]
  show Except.ok (⟨(q.within none).text, d.params⟩ : Sql.Prepared) = _
  rw [Query.within_none hoffset hrows]

theorem compile_of_limit (h : Compiles s root e o.unpaged scope d steps q)
    (hlimit : o.limit = some limit) :
    s.compile root e o =
      if o.pageSize limit = 0 then .error (.invalid .zeroLimit)
      else if o.wantedPage * o.pageSize limit < numbersOf 64 then
        .ok ⟨q.text ++ (o.windowAt limit o.wantedPage).text, d.params⟩
      else .error (.invalid .pageOutOfRange) := by
  obtain ⟨hoffset, hrows⟩ := h.window_eq_none
  rw [h.compile_eq_within]
  -- a limit of zero is refused first, and a greater one may still be cut down to zero
  by_cases hzero : limit = 0
  · have hsize : o.pageSize limit = 0 := by rw [CompileOptions.pageSize, hzero, Nat.zero_min]
    rw [CompileOptions.effectiveLimit_of_zero (hzero ▸ hlimit), if_pos hsize]
    rfl
  · rw [CompileOptions.effectiveLimit_of_ne_zero hlimit hzero, Except.bind, Pagination.window_eq]
    simp only [Option.some.injEq]
    split
    · rfl
    · rw [← Query.text_within hoffset hrows, CompileOptions.wantedPage]
      split <;> rfl

end Compiles

/-- A query that compiles without pages compiles with them if it asks for no limit, or for a page
that there is. It is an invalid query otherwise. Without limit nothing changes, whatever page is
asked for. With a limit, the statement is followed by the window of the page, and the bound values
are the same. Different pages have windows without common rows, and the window of the next page
begins where that of a page ends. -/
theorem Schema.compile_pages {base : Sql.Prepared} (h : s.compile root e o.unpaged = .ok base) :
    (∃ scope d steps q, Compiles s root e o.unpaged scope d steps q ∧ base = ⟨q.text, d.params⟩ ∧
      .keyword .OFFSET ∉ q.tokens ∧ .keyword .LIMIT ∉ q.tokens) ∧
    ((∃ p, s.compile root e o = .ok p) ↔ ∀ limit ∈ o.limit, o.HasPage limit) ∧
    (o.limit = none → s.compile root e o = .ok base) ∧
    ∀ limit ∈ o.limit,
      (o.HasPage limit → s.compile root e o =
        .ok ⟨base.text ++ (o.windowAt limit o.wantedPage).text, base.params⟩) ∧
      (¬ o.HasPage limit → s.compile root e o =
        .error (.invalid (if o.pageSize limit = 0 then .zeroLimit else .pageOutOfRange))) ∧
      (∀ page page', page ≠ page' →
        ∀ row ∈ (o.windowAt limit page).rows, row ∉ (o.windowAt limit page').rows) ∧
      ∀ page, (o.windowAt limit (page + 1)).offset =
        (o.windowAt limit page).offset + (o.windowAt limit page).limit := by
  obtain ⟨scope, d, steps, q, hcompiles, rfl⟩ := exists_compiles h
  obtain ⟨hoffset, hrows⟩ := hcompiles.window_eq_none
  have hlimited : ∀ limit ∈ o.limit,
      (o.HasPage limit → s.compile root e o =
        .ok ⟨q.text ++ (o.windowAt limit o.wantedPage).text, d.params⟩) ∧
      (¬ o.HasPage limit → s.compile root e o =
        .error (.invalid (if o.pageSize limit = 0 then .zeroLimit else .pageOutOfRange))) := by
    -- the two conditions of a page are what the statement is decided by
    intro limit hlimit
    rw [hcompiles.compile_of_limit hlimit, CompileOptions.hasPage_iff]
    constructor
    · rintro ⟨hsize, hpage⟩
      rw [if_neg hsize, if_pos hpage]
    · intro hnone
      split
      · rfl
      · rename_i hsize
        exact if_neg fun hpage => hnone ⟨hsize, hpage⟩
  refine ⟨⟨scope, d, steps, q, hcompiles, rfl, ?_, ?_⟩, ?_, hcompiles.compile_of_no_limit, ?_⟩
  · rw [hcompiles.keyword_mem_tokens_iff (.inr (.inl rfl)), hoffset]
    simp
  · rw [hcompiles.keyword_mem_tokens_iff (.inr (.inr rfl)), hrows]
    simp
  · constructor
    · rintro ⟨p, hp⟩ limit hlimit
      by_contra hnone
      -- there would be an error instead
      exact absurd (hp.symm.trans ((hlimited limit hlimit).2 hnone)) (by simp)
    · intro hpage
      cases hlimit : o.limit with
      | none => exact ⟨_, hcompiles.compile_of_no_limit hlimit⟩
      | some limit => exact ⟨_, (hlimited limit hlimit).1 (hpage limit hlimit)⟩
  · intro limit hlimit
    obtain ⟨hok, herror⟩ := hlimited limit hlimit
    exact ⟨hok, herror, fun _ _ => notMem_rows_windowOf, windowOf_succ _⟩

/-- A page of fifty rows has ten if there may be no more, and a page too far behind is refused. -/
theorem Schema.compile_pages_fieldwork :
    ∃ base, Schema.fieldwork.compile "Event" .fieldwork {} = .ok base ∧
      Schema.fieldwork.compile "Event" .fieldwork
          { page := some 2, limit := some 50, maxLimit := 10 } =
        .ok ⟨base.text ++ " OFFSET 20 LIMIT 10", base.params⟩ ∧
      Schema.fieldwork.compile "Event" .fieldwork
          { page := some (numbersOf 63), limit := some 2 } = .error (.invalid .pageOutOfRange) := by
  have hbase : Schema.fieldwork.compile "Event" .fieldwork {} = .ok _ := rfl
  have hclamped : Schema.fieldwork.compile "Event" .fieldwork
      (CompileOptions.unpaged { page := some 2, limit := some 50, maxLimit := 10 }) = .ok _ := rfl
  have hfar : Schema.fieldwork.compile "Event" .fieldwork
      (CompileOptions.unpaged { page := some (numbersOf 63), limit := some 2 }) = .ok _ := rfl
  obtain ⟨-, -, -, hpages⟩ := compile_pages hclamped
  obtain ⟨-, -, -, hfarPages⟩ := compile_pages hfar
  refine ⟨_, hbase, ?_, ?_⟩
  · exact (hpages 50 rfl).1 (by decide)
  · exact (hfarPages 2 rfl).2.1 (by decide)

end Pages

end EntityQuery
