import Mathlib.Data.List.Forall2
import EntityQuery.Proofs.Ranges.Brackets

/-!
# Ranges with operators

A range that is not in brackets is read part by part. Its text is divided at each `and` between
blanks, and a part is one of the symbols `>=`, `<=`, `>`, `<` with a value behind it.

Where a value follows, the symbol is the longest one that the part begins with. But a part that is
nothing but `>=` or `<=` is not refused: it is read as a strict bound whose value is the equals sign
(`ReadsPart.aloneGe`, `ReadsPart.aloneLe`). So the rule of the longest symbol holds of all texts but
those with such a part (`operators_read_longest_iff`).
-/

namespace EntityQuery.Range

open Text

/-! ## §1 Parts -/

/-- The parts of a text, divided from the left wherever an `and` stands between blanks. -/
inductive AndParts : List Char → List (List Char) → Prop
  | last {cs : List Char} (h : ∀ before tail rest, cs = before ++ tail → ¬ Leads IsAnd tail rest) :
      AndParts cs [cs]
  | cons {cs first rest : List Char} {parts : List (List Char)}
      (h : SplitsFirst (Leads IsAnd) cs first rest) (hparts : AndParts rest parts) :
      AndParts cs (first :: parts)

namespace AndParts

variable {cs : List Char} {parts : List (List Char)}

theorem ne_nil (h : AndParts cs parts) : parts ≠ [] := by
  cases h <;> simp

/-- Every text is divided. -/
theorem exists_andParts (cs : List Char) : ∃ parts, AndParts cs parts := by
  -- the induction is on the length of the text, as what is behind an `and` is shorter
  induction hlength : cs.length using Nat.strong_induction_on generalizing cs with
  | _ n ih =>
    cases hsplit : splitAnd? cs with
    | none => exact ⟨[cs], .last (splitAnd?_eq_none_iff.mp hsplit)⟩
    | some pair =>
      have hsplits := splitAnd?_eq_some_iff.mp hsplit
      obtain ⟨parts, hparts⟩ := ih _ (hlength ▸ hsplits.length_lt) _ rfl
      exact ⟨pair.1 :: parts, .cons hsplits hparts⟩

/-- A text is divided in one way only. -/
theorem unique {parts' : List (List Char)} (h : AndParts cs parts) (h' : AndParts cs parts') :
    parts = parts' := by
  induction h generalizing parts' with
  | last hnone =>
    cases h' with
    | last _ => rfl
    -- where nothing leads there is nothing to divide at
    | cons hsplits _ =>
      rw [← splitAnd?_eq_some_iff, splitAnd?_eq_none_iff.mpr hnone] at hsplits
      exact absurd hsplits (by simp)
  | cons hsplits _ ih =>
    rw [← splitAnd?_eq_some_iff] at hsplits
    cases h' with
    | last hnone =>
      rw [splitAnd?_eq_none_iff.mpr hnone] at hsplits
      exact absurd hsplits (by simp)
    -- both divide at the first place
    | cons hsplits' hparts' =>
      rw [← splitAnd?_eq_some_iff, hsplits, Option.some.injEq, Prod.mk.injEq] at hsplits'
      obtain ⟨rfl, rfl⟩ := hsplits'
      rw [ih hparts']

end AndParts

theorem AndParts.trimmed {cs : List Char} {parts : List (List Char)} (h : AndParts cs parts)
    (hcs : Trimmed cs) : ∀ part ∈ parts, Trimmed part := by
  induction h with
  | last _ => simpa using hcs
  | cons hsplits _ ih =>
    obtain ⟨hfirst, -, hrest, -⟩ := hsplits.pieces id Leads.cons hcs
    exact List.forall_mem_cons.mpr ⟨hfirst, ih hrest⟩

theorem AndParts.isInfix {cs : List Char} {parts : List (List Char)} (h : AndParts cs parts) :
    ∀ part ∈ parts, part <:+: cs := by
  induction h with
  -- the text itself is its only part
  | last _ => simp
  | cons hsplits _ ih =>
    obtain ⟨tail, rfl, ⟨separator, -, rfl, -⟩, -⟩ := hsplits
    refine List.forall_mem_cons.mpr ⟨(List.prefix_append _ _).isInfix, fun part hpart => ?_⟩
    exact (ih part hpart).trans ((List.suffix_append _ _).trans (List.suffix_append _ _)).isInfix

/-! ## §2 Bounds -/

/-- What a text holds between blanks at its ends: something, and no line feed. -/
structure HasValue (rest : List Char) (value : String) : Prop where
  trim : value.toList = Text.trim rest
  nonempty : value ≠ ""
  line : '\n' ∉ value.toList

/-- The operator has the longest of the symbols that a part begins with. -/
structure IsLongestSymbol (part : List Char) (op : ComparisonOperator) : Prop where
  ordering : op.isOrdering = true
  starts : op.symbol.toList <+: part
  longest : ∀ other : ComparisonOperator, other.isOrdering = true →
    other.symbol.toList <+: part → other.symbol.length ≤ op.symbol.length

/-- A part is its longest symbol with a value behind it. -/
structure ReadsLongest (part : List Char) (b : ComparisonOperator × String) : Prop where
  symbol : IsLongestSymbol part b.1
  value : ∃ rest, part = b.1.symbol.toList ++ rest ∧ HasValue rest b.2

/-- The bound that a part is read as. -/
inductive ReadsPart : List Char → ComparisonOperator × String → Prop
  | longest {part : List Char} {b : ComparisonOperator × String} (h : ReadsLongest part b) :
      ReadsPart part b
  | aloneGe : ReadsPart ['>', '='] (.gt, "=")
  | aloneLe : ReadsPart ['<', '='] (.lt, "=")

theorem boundValue?_eq_some_iff {rest value : List Char} :
    boundValue? rest = some value ↔ HasValue rest (String.ofList value) := by
  unfold boundValue?
  constructor
  · intro h
    simp only [Option.ite_none_left_eq_some, Option.some.injEq] at h
    obtain ⟨hne, rfl⟩ := h
    simp only [Bool.or_eq_true, List.isEmpty_iff, List.contains_iff_mem, not_or] at hne
    exact ⟨by simp, by simpa using hne.1, by simpa using hne.2⟩
  · rintro ⟨htrim, hne, hline⟩
    simp only [String.toList_ofList] at htrim hline
    rw [← htrim]
    have hne' : value ≠ [] := by
      rintro rfl
      exact hne rfl
    simp [hne', hline]

/-- More than blanks, without a line feed between its ends, holds a value. -/
theorem exists_hasValue {rest : List Char} (hgap : ¬ IsGap rest) (hline : '\n' ∉ trim rest) :
    ∃ value, HasValue rest value := by
  refine ⟨String.ofList (trim rest), String.toList_ofList, ?_, by simpa using hline⟩
  intro hempty
  exact hgap (trim_eq_nil_iff.mp (by simpa using hempty))

/-- A value that begins with an equals sign is that sign alone, unless a value follows the sign. -/
theorem HasValue.eq_equalsSign {others : List Char} {value : String}
    (h : HasValue ('=' :: others) value) (hend : EndsPlain ('=' :: others))
    (hnone : ∀ value', ¬ HasValue others value') : others = [] ∧ value = "=" := by
  -- the sign is no blank, so nothing is trimmed before it
  have hplain : Trimmed ('=' :: others) := ⟨startsPlain_cons.mpr (by decide), hend⟩
  have htext : value.toList = '=' :: others := by rw [h.trim, trim_of_trimmed hplain]
  have hline : '\n' ∉ Text.trim others := fun hmem =>
    h.line (htext ▸ List.mem_cons_of_mem _ ((trim_isInfix others).subset hmem))
  have hothers : others = [] := by
    -- what is behind the sign would be a value of its own
    by_contra hne
    obtain ⟨value', hvalue'⟩ := exists_hasValue (hend.of_cons.not_isGap hne) hline
    exact hnone value' hvalue'
  subst hothers
  exact ⟨rfl, String.toList_injective htext⟩

theorem map_boundValue?_eq_some_iff {rest : List Char} {strict : Bool} {b : Bound} :
    (boundValue? rest).map (fun value => (⟨strict, String.ofList value⟩ : Bound)) = some b ↔
      b.strict = strict ∧ HasValue rest b.value := by
  rw [Option.map_eq_some_iff]
  constructor
  · rintro ⟨value, hvalue, rfl⟩
    exact ⟨rfl, boundValue?_eq_some_iff.mp hvalue⟩
  · rintro ⟨rfl, hvalue⟩
    exact ⟨b.value.toList, boundValue?_eq_some_iff.mpr (by simpa using hvalue), by simp⟩

/-- What follows a strict or an inclusive operator. A lone equals sign counts as a value. -/
theorem boundAfter?_eq_some_iff {rest : List Char} (hend : EndsPlain rest) {b : Bound} :
    boundAfter? rest = some b ↔
      (b.strict = false ∧ ∃ others, rest = '=' :: others ∧ HasValue others b.value) ∨
      (b.strict = true ∧ rest.head? ≠ some '=' ∧ HasValue rest b.value) ∨
      (b = ⟨true, "="⟩ ∧ rest = ['=']) := by
  unfold boundAfter?
  split
  · rename_i others
    cases hothers : boundValue? others with
    -- behind the sign there is a value, and the bound is inclusive
    | some value =>
      have hsome : some (⟨false, String.ofList value⟩ : Bound) =
          (boundValue? others).map fun value => ⟨false, String.ofList value⟩ := by rw [hothers]; rfl
      have hne : others ≠ [] := by
        rintro rfl
        exact absurd hothers (by simp [boundValue?, trim, dropBlanks, dropTrailingBlanks])
      simp only [hsome, map_boundValue?_eq_some_iff]
      simp [hne]
    -- behind the sign there is none, so the sign itself is tried as the value of a strict bound
    | none =>
      have hnone : ∀ value, ¬ HasValue others value := by
        intro value hvalue
        have hvalue' : HasValue others (String.ofList value.toList) := by simpa using hvalue
        rw [← boundValue?_eq_some_iff, hothers] at hvalue'
        exact absurd hvalue' (by simp)
      simp only [map_boundValue?_eq_some_iff]
      constructor
      · rintro ⟨hstrict, hvalue⟩
        obtain ⟨rfl, hequals⟩ := hvalue.eq_equalsSign hend hnone
        obtain ⟨strict, value⟩ := b
        obtain rfl : strict = true := hstrict
        obtain rfl : value = "=" := hequals
        exact .inr (.inr ⟨rfl, rfl⟩)
      · rintro (⟨-, _, heq, hvalue⟩ | ⟨-, hhead, -⟩ | ⟨rfl, heq⟩)
        · exact absurd ((List.cons.inj heq).2 ▸ hvalue) (hnone _)
        · exact absurd rfl hhead
        · have hplain : Trimmed ['='] := by decide
          rw [heq]
          exact ⟨rfl, (trim_of_trimmed hplain).symm, by simp, by simp⟩
  · -- no sign follows, and the bound is strict
    rename_i hhead
    have hhead' : rest.head? ≠ some '=' := by
      intro heq
      obtain ⟨others, rfl⟩ := List.head?_eq_some_iff.mp heq
      exact hhead others rfl
    rw [map_boundValue?_eq_some_iff]
    constructor
    · exact fun h => .inr (.inl ⟨h.1, hhead', h.2⟩)
    · rintro (⟨-, others, rfl, -⟩ | ⟨hstrict, -, hvalue⟩ | ⟨-, rfl⟩)
      · exact absurd rfl hhead'
      · exact ⟨hstrict, hvalue⟩
      · exact absurd rfl hhead'

/-- The symbols of the operators of a bound, letter by letter. -/
theorem symbol_toList_cases {op : ComparisonOperator} (h : op.isOrdering = true) :
    (op = .ge ∧ op.symbol.toList = ['>', '=']) ∨ (op = .le ∧ op.symbol.toList = ['<', '=']) ∨
      (op = .gt ∧ op.symbol.toList = ['>']) ∨ (op = .lt ∧ op.symbol.toList = ['<']) := by
  cases op with
  | eq | ne => exact absurd h (by simp [ComparisonOperator.isOrdering])
  | ge | le | gt | lt => simp [ComparisonOperator.symbol]

/-- An inclusive symbol that a part begins with is its longest. -/
theorem isLongestSymbol_inclusive {part : List Char} {op : ComparisonOperator}
    (h : op.isOrdering = true) (hlength : op.symbol.length = 2)
    (hstarts : op.symbol.toList <+: part) : IsLongestSymbol part op := by
  -- no symbol has more than two characters
  refine ⟨h, hstarts, fun other _ _ => ?_⟩
  rw [hlength]
  cases other <;> decide

/-- A strict symbol is the longest where no equals sign follows. -/
theorem isLongestSymbol_strict {rest : List Char} {op : ComparisonOperator}
    (h : op.isOrdering = true) (hlength : op.symbol.length = 1) (hrest : rest.head? ≠ some '=') :
    IsLongestSymbol (op.symbol.toList ++ rest) op := by
  refine ⟨h, List.prefix_append _ _, fun other hother hstarts => ?_⟩
  obtain ⟨c, hc⟩ := List.length_eq_one_iff.mp (hlength ▸ String.length_toList)
  obtain ⟨after, hafter⟩ := hstarts
  rw [hc, List.singleton_append] at hafter
  rcases symbol_toList_cases hother with ⟨rfl, hs⟩ | ⟨rfl, hs⟩ | ⟨rfl, -⟩ | ⟨rfl, -⟩
  · -- a longer symbol would need the equals sign that does not follow
    rw [hs] at hafter
    exact absurd (by rw [← (List.cons.inj hafter).2]; rfl) hrest
  · rw [hs] at hafter
    exact absurd (by rw [← (List.cons.inj hafter).2]; rfl) hrest
  · exact hlength.ge
  · exact hlength.ge

/-- What is read by its longest symbol, symbol by symbol. -/
theorem readsLongest_iff {part : List Char} {op : ComparisonOperator} {value : String} :
    ReadsLongest part (op, value) ↔ ∃ rest, HasValue rest value ∧
      ((op = .ge ∧ part = '>' :: '=' :: rest) ∨ (op = .le ∧ part = '<' :: '=' :: rest) ∨
        (op = .gt ∧ part = '>' :: rest ∧ rest.head? ≠ some '=') ∨
        (op = .lt ∧ part = '<' :: rest ∧ rest.head? ≠ some '=')) := by
  constructor
  · rintro ⟨⟨hordering, -, hlongest⟩, rest, hpart, hvalue⟩
    dsimp only at hordering hlongest hpart hvalue
    refine ⟨rest, hvalue, ?_⟩
    -- before an equals sign a strict symbol would not be the longest
    have hstrict : ∀ inclusive : ComparisonOperator, inclusive.isOrdering = true →
        inclusive.symbol.toList = op.symbol.toList ++ ['='] → rest.head? ≠ some '=' := by
      intro inclusive hordering' hsymbol hhead
      obtain ⟨others, rfl⟩ := List.head?_eq_some_iff.mp hhead
      have hlength := hlongest inclusive hordering' ⟨others, by simp [hsymbol, hpart]⟩
      rw [← String.length_toList, ← String.length_toList, hsymbol, List.length_append] at hlength
      exact absurd hlength (by simp)
    -- each symbol leaves a part of its own form
    rcases symbol_toList_cases hordering with ⟨rfl, hs⟩ | ⟨rfl, hs⟩ | ⟨rfl, hs⟩ | ⟨rfl, hs⟩
    · exact .inl ⟨rfl, by rw [hpart, hs]; rfl⟩
    · exact .inr (.inl ⟨rfl, by rw [hpart, hs]; rfl⟩)
    · exact .inr (.inr (.inl ⟨rfl, by rw [hpart, hs]; rfl, hstrict .ge rfl (by decide)⟩))
    · exact .inr (.inr (.inr ⟨rfl, by rw [hpart, hs]; rfl, hstrict .le rfl (by decide)⟩))
  · -- from the form of a part its longest symbol is known
    rintro ⟨rest, hvalue, ⟨rfl, rfl⟩ | ⟨rfl, rfl⟩ | ⟨rfl, rfl, hhead⟩ | ⟨rfl, rfl, hhead⟩⟩
    · have hlength : ComparisonOperator.ge.symbol.length = 2 := by decide
      exact ⟨isLongestSymbol_inclusive rfl hlength (by simp [ComparisonOperator.symbol]), rest,
        by simp [ComparisonOperator.symbol], hvalue⟩
    · have hlength : ComparisonOperator.le.symbol.length = 2 := by decide
      exact ⟨isLongestSymbol_inclusive rfl hlength (by simp [ComparisonOperator.symbol]), rest,
        by simp [ComparisonOperator.symbol], hvalue⟩
    · have hpart : '>' :: rest = ComparisonOperator.gt.symbol.toList ++ rest := by
        simp [ComparisonOperator.symbol]
      exact ⟨hpart ▸ isLongestSymbol_strict rfl (by decide) hhead, rest, hpart, hvalue⟩
    · have hpart : '<' :: rest = ComparisonOperator.lt.symbol.toList ++ rest := by
        simp [ComparisonOperator.symbol]
      exact ⟨hpart ▸ isLongestSymbol_strict rfl (by decide) hhead, rest, hpart, hvalue⟩

theorem readsPart_iff {part : List Char} {b : ComparisonOperator × String} :
    ReadsPart part b ↔ ReadsLongest part b ∨
      (part = ['>', '='] ∧ b = (.gt, "=")) ∨ (part = ['<', '='] ∧ b = (.lt, "=")) := by
  constructor
  · rintro (hlongest | _ | _)
    · exact .inl hlongest
    · exact .inr (.inl ⟨rfl, rfl⟩)
    · exact .inr (.inr ⟨rfl, rfl⟩)
  · rintro (hlongest | ⟨rfl, rfl⟩ | ⟨rfl, rfl⟩)
    · exact .longest hlongest
    · exact .aloneGe
    · exact .aloneLe

/-- What follows the symbol of a lower bound, and the bound that it makes. -/
theorem readsPart_lower_iff {rest : List Char} {b : Bound} :
    ReadsPart ('>' :: rest) (lowerOperator b, b.value) ↔
      (b.strict = false ∧ ∃ others, rest = '=' :: others ∧ HasValue others b.value) ∨
      (b.strict = true ∧ rest.head? ≠ some '=' ∧ HasValue rest b.value) ∨
      (b = ⟨true, "="⟩ ∧ rest = ['=']) := by
  obtain ⟨_ | _, value⟩ := b <;>
    simp [readsPart_iff, readsLongest_iff, lowerOperator, and_comm]

/-- What follows the symbol of an upper bound, and the bound that it makes. -/
theorem readsPart_upper_iff {rest : List Char} {b : Bound} :
    ReadsPart ('<' :: rest) (upperOperator b, b.value) ↔
      (b.strict = false ∧ ∃ others, rest = '=' :: others ∧ HasValue others b.value) ∨
      (b.strict = true ∧ rest.head? ≠ some '=' ∧ HasValue rest b.value) ∨
      (b = ⟨true, "="⟩ ∧ rest = ['=']) := by
  obtain ⟨_ | _, value⟩ := b <;>
    simp [readsPart_iff, readsLongest_iff, upperOperator, and_comm]

/-- A part begins as the symbol of its bound begins, also where the symbol is not the longest. -/
theorem ReadsPart.head?_eq_symbol {part : List Char} {b : ComparisonOperator × String}
    (h : ReadsPart part b) : part.head? = b.1.symbol.toList.head? := by
  cases h with
  | longest hlongest =>
    obtain ⟨rest, hpart, -⟩ := hlongest.value
    rw [hpart]
    have hordering := hlongest.symbol.ordering
    rcases symbol_toList_cases hordering with ⟨-, hs⟩ | ⟨-, hs⟩ | ⟨-, hs⟩ | ⟨-, hs⟩ <;> simp [hs]
  | aloneGe => decide
  | aloneLe => decide

/-- The first character of a part tells on which side its bound is. -/
theorem ReadsPart.head?_eq {part : List Char} {side : Side} (h : ReadsPart part side.comparison) :
    part.head? = some (match side with | .lower _ => '>' | .upper _ => '<') := by
  rw [h.head?_eq_symbol]
  rcases side with ⟨_ | _, value⟩ | ⟨_ | _, value⟩ <;>
    simp [Side.comparison, lowerOperator, upperOperator, ComparisonOperator.symbol]

/-- A part between blanks is read by its longest symbol, or is an inclusive symbol alone. -/
theorem operatorSide?_eq_some_iff {part : List Char} (h : Trimmed part) {side : Side} :
    operatorSide? part = some side ↔ ReadsPart part side.comparison := by
  rw [operatorSide?, dropBlanks_of_startsPlain h.startsPlain]
  split
  · -- a lower bound is read behind `>`, and an upper one cannot begin so
    rename_i rest
    rw [Option.map_eq_some_iff]
    simp only [boundAfter?_eq_some_iff h.endsPlain.of_cons, ← readsPart_lower_iff]
    cases side with
    | lower b => exact ⟨fun ⟨_, hb, heq⟩ => heq ▸ hb, fun hb => ⟨b, hb, rfl⟩⟩
    | upper b =>
      refine ⟨fun ⟨_, _, heq⟩ => absurd heq (by simp), fun hb => ?_⟩
      exact absurd hb.head?_eq (by simp)
  · -- the other way round behind `<`
    rename_i rest
    rw [Option.map_eq_some_iff]
    simp only [boundAfter?_eq_some_iff h.endsPlain.of_cons, ← readsPart_upper_iff]
    cases side with
    | upper b => exact ⟨fun ⟨_, hb, heq⟩ => heq ▸ hb, fun hb => ⟨b, hb, rfl⟩⟩
    | lower b =>
      refine ⟨fun ⟨_, _, heq⟩ => absurd heq (by simp), fun hb => ?_⟩
      exact absurd hb.head?_eq (by simp)
  · -- behind any other character nothing is read
    rename_i hlower hupper
    refine ⟨fun hnone => absurd hnone (by simp), fun hb => ?_⟩
    cases side with
    | lower _ =>
      obtain ⟨others, hpart⟩ := List.head?_eq_some_iff.mp hb.head?_eq
      exact absurd hpart (hlower others)
    | upper _ =>
      obtain ⟨others, hpart⟩ := List.head?_eq_some_iff.mp hb.head?_eq
      exact absurd hpart (hupper others)

/-! ## §3 Ranges -/

/-- The parts of a text are read as the bounds of the range, in whatever order. A range has one
bound or two in different directions, and so have the texts that are read as one. -/
def ReadsParts (reads : List Char → ComparisonOperator × String → Prop) (cs : List Char)
    (r : Range) : Prop :=
  ∃ parts bounds, AndParts cs parts ∧ List.Forall₂ reads parts bounds ∧ bounds.Perm r.bounds

theorem ReadsPart.exists_side {part : List Char} {b : ComparisonOperator × String}
    (h : ReadsPart part b) : ∃ side : Side, side.comparison = b := by
  obtain ⟨op, value⟩ := b
  rcases readsPart_iff.mp h with hlongest | ⟨-, heq⟩ | ⟨-, heq⟩
  · have hordering := hlongest.symbol.ordering
    rcases symbol_toList_cases hordering with ⟨hop, -⟩ | ⟨hop, -⟩ | ⟨hop, -⟩ | ⟨hop, -⟩
      <;> obtain rfl : op = _ := hop
    · exact ⟨.lower ⟨false, value⟩, rfl⟩
    · exact ⟨.upper ⟨false, value⟩, rfl⟩
    · exact ⟨.lower ⟨true, value⟩, rfl⟩
    · exact ⟨.upper ⟨true, value⟩, rfl⟩
  · -- a symbol that stands alone counts as a strict one
    exact ⟨.lower ⟨true, "="⟩, heq.symm⟩
  · exact ⟨.upper ⟨true, "="⟩, heq.symm⟩

theorem forall₂_readsPart_iff {parts : List (List Char)} (h : ∀ part ∈ parts, Trimmed part)
    {bounds : List (ComparisonOperator × String)} :
    List.Forall₂ ReadsPart parts bounds ↔ ∃ sides : List Side,
      bounds = sides.map Side.comparison ∧ List.Forall₂ (operatorSide? · = some ·) parts sides := by
  induction parts generalizing bounds with
  | nil => simp
  -- parts and sides are taken one by one
  | cons part parts ih =>
    obtain ⟨hpart, hparts⟩ := List.forall_mem_cons.mp h
    constructor
    · rintro (_ | ⟨hread, hreads⟩)
      obtain ⟨side, rfl⟩ := hread.exists_side
      obtain ⟨sides, rfl, hsides⟩ := (ih hparts).mp hreads
      exact ⟨side :: sides, rfl, .cons ((operatorSide?_eq_some_iff hpart).mpr hread) hsides⟩
    · rintro ⟨_, rfl, _ | ⟨hside, hsides⟩⟩
      exact .cons ((operatorSide?_eq_some_iff hpart).mp hside) ((ih hparts).mpr ⟨_, rfl, hsides⟩)

/-- The parts of a text, each with the side that it is read as. -/
theorem readsParts_iff {cs : List Char} (h : Trimmed cs) {parts : List (List Char)}
    (hparts : AndParts cs parts) {r : Range} :
    ReadsParts ReadsPart cs r ↔
      ∃ sides, List.Forall₂ (operatorSide? · = some ·) parts sides ∧ sides.Perm r.sides := by
  constructor
  · rintro ⟨parts', bounds, hparts', hread, hperm⟩
    obtain rfl := hparts.unique hparts'
    obtain ⟨sides, rfl, hsides⟩ := (forall₂_readsPart_iff (hparts.trimmed h)).mp hread
    exact ⟨sides, hsides, perm_bounds_iff.mp hperm⟩
  · rintro ⟨sides, hsides, hperm⟩
    exact ⟨parts, _, hparts, (forall₂_readsPart_iff (hparts.trimmed h)).mpr ⟨sides, rfl, hsides⟩,
      perm_bounds_iff.mpr hperm⟩

/-- A text without brackets is read as the range that its parts make. -/
theorem ofOperators?_eq_some_iff {cs : List Char} (h : Trimmed cs) {r : Range} :
    ofOperators? cs = some r ↔ ReadsParts ReadsPart cs r := by
  unfold ofOperators?
  cases hsplit : splitAnd? cs with
  -- there is one part, and so one side
  | none =>
    simp only [readsParts_iff h (.last (splitAnd?_eq_none_iff.mp hsplit)), Option.map_eq_some_iff,
      ofSide_eq_iff]
    constructor
    · rintro ⟨side, hside, hperm⟩
      exact ⟨[side], .cons hside .nil, hperm⟩
    · rintro ⟨_, _ | ⟨hside, ⟨⟩⟩, hperm⟩
      exact ⟨_, hside, hperm⟩
  | some pair =>
    obtain ⟨first, rest⟩ := pair
    rw [splitAnd?_eq_some_iff] at hsplit
    -- there are two parts, if the rest is not divided again
    cases hrest : splitAnd? rest with
    | none =>
      have hparts : AndParts cs [first, rest] :=
        .cons hsplit (.last (splitAnd?_eq_none_iff.mp hrest))
      simp only [hrest, Option.isSome_none, Bool.false_eq_true, if_false, readsParts_iff h hparts,
        Option.bind_eq_some_iff, ofTwoSides?_eq_some_iff]
      constructor
      · rintro ⟨side, hside, side', hside', hperm⟩
        exact ⟨[side, side'], .cons hside (.cons hside' .nil), hperm⟩
      · rintro ⟨_, _ | ⟨hside, _ | ⟨hside', ⟨⟩⟩⟩, hperm⟩
        exact ⟨_, hside, _, hside', hperm⟩
    | some pair' =>
      -- a range has no more than two sides
      obtain ⟨second, rest'⟩ := pair'
      obtain ⟨others, hothers⟩ := AndParts.exists_andParts rest'
      have hparts := AndParts.cons hsplit (.cons (splitAnd?_eq_some_iff.mp hrest) hothers)
      dsimp only
      rw [if_pos (by simp [hrest]), readsParts_iff h hparts]
      refine ⟨fun hnone => absurd hnone (by simp), ?_⟩
      rintro ⟨sides, hsides, hperm⟩
      have hlength := length_sides_le r
      rw [← hperm.length_eq, ← hsides.length_eq] at hlength
      have hpos := List.length_pos_iff.mpr hothers.ne_nil
      simp only [List.length_cons] at hlength
      omega

/-! ## §4 The longest symbol -/

/-- The part is an inclusive symbol and nothing else. -/
def IsBareSymbol (part : List Char) : Prop :=
  part = ['>', '='] ∨ part = ['<', '=']

/-- Behind a bare symbol there is no value. -/
theorem IsBareSymbol.not_readsLongest {part : List Char} (h : IsBareSymbol part)
    (b : ComparisonOperator × String) : ¬ ReadsLongest part b := by
  intro hread
  obtain ⟨rest, ⟨htrim, hne, -⟩, hcases⟩ := readsLongest_iff.mp hread
  -- in both cases the part has no room for more than its symbol
  have hrest : rest = [] := by
    rcases h with rfl | rfl <;>
      rcases hcases with ⟨-, heq⟩ | ⟨-, heq⟩ | ⟨-, heq, hhead⟩ | ⟨-, heq, hhead⟩ <;>
      simp only [List.cons.injEq, Char.reduceEq, true_and, false_and] at heq
    · exact heq.symm
    · exact absurd (heq ▸ rfl) hhead
    · exact heq.symm
    · exact absurd (heq ▸ rfl) hhead
  rw [hrest] at htrim
  exact hne (String.toList_injective htrim)

theorem readsLongest_iff_readsPart {part : List Char} {b : ComparisonOperator × String} :
    ReadsLongest part b ↔ ¬ IsBareSymbol part ∧ ReadsPart part b := by
  rw [readsPart_iff]
  constructor
  · -- the parts differ in the bare symbols alone
    exact fun h => ⟨fun hbare => hbare.not_readsLongest b h, .inl h⟩
  · rintro ⟨hbare, h | ⟨hpart, -⟩ | ⟨hpart, -⟩⟩
    · exact h
    · exact absurd (.inl hpart) hbare
    · exact absurd (.inr hpart) hbare

theorem forall₂_readsLongest_iff {parts : List (List Char)}
    {bounds : List (ComparisonOperator × String)} :
    List.Forall₂ ReadsLongest parts bounds ↔
      (∀ part ∈ parts, ¬ IsBareSymbol part) ∧ List.Forall₂ ReadsPart parts bounds := by
  rw [← List.forall₂_and_left]
  exact ⟨List.Forall₂.imp fun _ _ => readsLongest_iff_readsPart.mp,
    List.Forall₂.imp fun _ _ => readsLongest_iff_readsPart.mpr⟩

theorem readsParts_longest_iff {cs : List Char} {parts : List (List Char)}
    (hparts : AndParts cs parts) {r : Range} :
    ReadsParts ReadsLongest cs r ↔
      (∀ part ∈ parts, ¬ IsBareSymbol part) ∧ ReadsParts ReadsPart cs r := by
  simp only [ReadsParts, forall₂_readsLongest_iff]
  constructor
  · rintro ⟨parts', bounds, hparts', ⟨hbare, hreads⟩, hperm⟩
    obtain rfl := hparts.unique hparts'
    exact ⟨hbare, parts, bounds, hparts, hreads, hperm⟩
  · rintro ⟨hbare, parts', bounds, hparts', hreads, hperm⟩
    obtain rfl := hparts.unique hparts'
    exact ⟨parts, bounds, hparts, ⟨hbare, hreads⟩, hperm⟩

theorem parse?_eq_ofOperators? {spec : String} (h : ¬ InBrackets spec.toList) :
    parse? spec = ofOperators? (trim spec.toList) := by
  -- without brackets the text is read by operators
  have hnone : ofBrackets? (trim spec.toList) = none := by
    rw [Option.eq_none_iff_forall_ne_some]
    exact fun r hr => h (inBrackets_of_ofBrackets? hr)
  rw [parse?_eq_or, hnone, Option.none_or]

/-- What a text that is not in bracket form is read as, and when its parts are read by the longest
symbols that they begin with: always, unless the text is accepted with a bare `>=` or `<=` in it. -/
theorem operators_read_longest_iff {spec : String} (h : ¬ InBrackets spec.toList) :
    (∀ r, parse? spec = some r ↔ ReadsParts ReadsPart (trim spec.toList) r) ∧
    ((∀ r, parse? spec = some r ↔ ReadsParts ReadsLongest (trim spec.toList) r) ↔
      ∀ parts, AndParts (trim spec.toList) parts → (parse? spec).isSome →
        ∀ part ∈ parts, ¬ IsBareSymbol part) := by
  have hparse : ∀ r, parse? spec = some r ↔ ReadsParts ReadsPart (trim spec.toList) r := by
    intro r
    rw [parse?_eq_ofOperators? h, ofOperators?_eq_some_iff (trimmed_trim _)]
  refine ⟨hparse, fun hrule parts hparts hsome => ?_, fun hplain r => ?_⟩
  · -- what is accepted by its longest symbols has no bare symbol
    obtain ⟨r, hr⟩ := Option.isSome_iff_exists.mp hsome
    exact ((readsParts_longest_iff hparts).mp ((hrule r).mp hr)).1
  · obtain ⟨parts, hparts⟩ := AndParts.exists_andParts (trim spec.toList)
    rw [readsParts_longest_iff hparts, ← hparse]
    exact ⟨fun hr => ⟨hplain parts hparts (by rw [hr]; rfl), hr⟩, fun hr => hr.2⟩

/-- Of two bounds the second is left out. The text is accepted, and not by its longest symbols. -/
theorem operators_read_longest_iff_barePart :
    ¬ InBrackets ">=5 And <=".toList ∧
    ReadsParts ReadsPart (trim ">=5 And <=".toList) (.between ⟨false, "5"⟩ ⟨true, "="⟩) ∧
    ¬ (∀ r, parse? ">=5 And <=" = some r ↔
      ReadsParts ReadsLongest (trim ">=5 And <=".toList) r) := by
  have hform : ¬ InBrackets ">=5 And <=".toList := by
    -- there is no opening bracket in the text
    rintro ⟨before, strict, first, low, separator, high, last, strict', after, hcs, -⟩
    have hmem : openingBracket strict ∈ ">=5 And <=".toList := by
      rw [hcs]
      simp
    cases strict <;> exact absurd hmem (by decide)
  have hparse : parse? ">=5 And <=" = some (.between ⟨false, "5"⟩ ⟨true, "="⟩) := by decide
  obtain ⟨hreads, hrule⟩ := operators_read_longest_iff hform
  have hparts : AndParts (trim ">=5 And <=".toList) [">=5".toList, "<=".toList] := by
    refine .cons (splitAnd?_eq_some_iff.mp ?_) (.last (splitAnd?_eq_none_iff.mp ?_)) <;> decide
  refine ⟨hform, (hreads _).mp hparse, fun hlongest => ?_⟩
  exact hrule.mp hlongest _ hparts (by rw [hparse]; rfl) "<=".toList (by decide)
    (.inr (by decide))

end EntityQuery.Range
