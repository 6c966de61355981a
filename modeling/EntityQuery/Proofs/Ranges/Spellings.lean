import EntityQuery.Compile
import EntityQuery.Proofs.Meaning
import EntityQuery.Proofs.Ranges.Operators

/-!
# Spellings of one range

A range can be written in brackets or with operators, with one bound or two, in either order, with
any blanks between its parts. For bounds that contain nothing that separates or opens a side in
either form (`Bound.IsOperand`), all spellings are read as the range that they spell
(`Spells.parse?_eq`). So expressions that differ in the spelling of ranges only are compiled to the
same statement (`spellings_agree`).
-/

namespace EntityQuery

open Text

/-! ## §1 Operands -/

/-- The value of a bound means the same in brackets and behind an operator. -/
structure Bound.IsOperand (b : Bound) : Prop extends Range.IsValue b.value where
  /-- An asterisk would leave the side open. -/
  bounded : b.value ≠ "*"
  /-- Separators lie between words. -/
  words : ∀ word ∈ Text.words b.value.toList, ¬ Range.IsTo word ∧ ¬ Range.IsAnd word
  /-- An equals sign would belong to a strict operator. -/
  equals : b.strict = true → b.value.toList.head? ≠ some '='

namespace Range

def HasOperands (r : Range) : Prop :=
  ∀ side ∈ r.sides, side.bound.IsOperand

/-! ## §2 Spellings -/

/-- How one side is written in brackets: its value next to the bracket of its kind, or an asterisk
next to either bracket. -/
inductive SpellsSide : Option Bound → Bool → List Char → Prop
  | bounded (b : Bound) : SpellsSide (some b) b.strict b.value.toList
  | unbounded (strict : Bool) : SpellsSide none strict ['*']

/-- How one bound is written with an operator. -/
def SpellsBound (side : Side) (part : List Char) : Prop :=
  ∃ gap, IsGap gap ∧ part = side.comparison.1.symbol.toList ++ gap ++ side.bound.value.toList

/-- How a range is written. -/
inductive Spells : Range → List Char → Prop
  /-- In brackets, with one side or both bounded. -/
  | brackets {r : Range} {lower upper : Option Bound} {strict strict' : Bool}
      {before first low separator high last after : List Char}
      (hr : ofSides? lower upper = some r) (hlow : SpellsSide lower strict low)
      (hseparator : IsSeparator IsTo separator) (hhigh : SpellsSide upper strict' high)
      (hbefore : IsGap before) (hfirst : IsGap first) (hlast : IsGap last) (hafter : IsGap after) :
      Spells r (before ++ openingBracket strict :: (first ++ low ++ separator ++ high ++ last) ++
        closingBracket strict' :: after)
  /-- With one operator. -/
  | one {r : Range} {side : Side} {before part after : List Char} (hr : r.sides = [side])
      (hpart : SpellsBound side part) (hbefore : IsGap before) (hafter : IsGap after) :
      Spells r (before ++ part ++ after)
  /-- With two operators, the lower bound first or the upper one. -/
  | two {r : Range} {side side' : Side} {before part separator part' after : List Char}
      (hr : r.sides.Perm [side, side']) (hpart : SpellsBound side part)
      (hseparator : IsSeparator IsAnd separator) (hpart' : SpellsBound side' part')
      (hbefore : IsGap before) (hafter : IsGap after) :
      Spells r (before ++ (part ++ separator ++ part') ++ after)

variable {r : Range} {side : Side} {part : List Char}

/-! ## §3 Brackets are read -/

/-- What is written on a side in brackets. -/
structure IsSideText (text : List Char) : Prop where
  nonempty : text ≠ []
  trimmed : Trimmed text
  line : '\n' ∉ text
  words : ∀ word ∈ Text.words text, ¬ IsTo word

theorem SpellsSide.isSideText {bound : Option Bound} {strict : Bool} {text : List Char}
    (h : SpellsSide bound strict text) (hb : ∀ b ∈ bound, b.IsOperand) : IsSideText text := by
  cases h with
  | bounded b =>
    have hb := hb b rfl
    exact ⟨hb.nonempty, hb.trimmed, hb.line, fun word hword => (hb.words word hword).1⟩
  | unbounded strict =>
    -- an asterisk is one word, and not the separator
    have hplain : StartsPlain ['*'] := startsPlain_cons.mpr (by decide)
    refine ⟨by simp, ⟨hplain, hplain⟩, by simp, fun word hword => ?_⟩
    rw [show Text.words ['*'] = [['*']] by decide, List.mem_singleton] at hword
    rw [hword]
    simp [IsTo]

theorem SpellsSide.bracketSide?_eq {bound : Option Bound} {strict : Bool} {text : List Char}
    (h : SpellsSide bound strict text) (hb : ∀ b ∈ bound, b.IsOperand) :
    bracketSide? strict text = bound := by
  cases h with
  | bounded b =>
    -- a value that is an asterisk would be read as no bound
    have hne : b.value.toList ≠ ['*'] := fun heq =>
      (hb b rfl).bounded (String.toList_injective heq)
    simp [bracketSide?, hne]
  | unbounded strict => rfl

/-- Two sides in brackets are split at the `TO` between them. -/
theorem IsSideText.splitsFirst {low separator high : List Char} (hlow : IsSideText low)
    (hseparator : IsSeparator IsTo separator) (hhigh : IsSideText high) :
    SplitsFirst LeadsToSide (low ++ (separator ++ high)) low high := by
  have hlead : Leads IsTo (separator ++ high) high :=
    ⟨separator, hseparator, rfl, hhigh.trimmed.startsPlain⟩
  obtain ⟨tail, htail, hlead', hfirst⟩ := splitsFirst_of_words wordsOnly_isTo hlead
    -- only the words of the lower side could hold an earlier separator
    hlow.trimmed.endsPlain fun word hword => hlow.words word (laterWords_subset_words _ hword)
  exact ⟨tail, htail, ⟨hlead', hhigh.line⟩, fun before after other heq hne hside =>
    hfirst before after other heq hne hside.1⟩

theorem ofBrackets?_of_spells {lower upper : Option Bound} {strict strict' : Bool}
    {first low separator high last : List Char} (h : r.HasOperands)
    (hr : ofSides? lower upper = some r) (hlow : SpellsSide lower strict low)
    (hseparator : IsSeparator IsTo separator) (hhigh : SpellsSide upper strict' high)
    (hfirst : IsGap first) (hlast : IsGap last) :
    ofBrackets? (openingBracket strict :: (first ++ low ++ separator ++ high ++ last) ++
      [closingBracket strict']) = some r := by
  -- the bounds are the sides of the range, which have operands
  have hlower : ∀ b ∈ lower, b.IsOperand := fun b hb =>
    h (.lower b) (by simp [sides_ofSides? hr, Option.mem_def.mp hb])
  have hupper : ∀ b ∈ upper, b.IsOperand := fun b hb =>
    h (.upper b) (by simp [sides_ofSides? hr, Option.mem_def.mp hb])
  have hlow' := hlow.isSideText hlower
  have hhigh' := hhigh.isSideText hupper
  have htrimmed : Trimmed (low ++ (separator ++ high)) :=
    ⟨hlow'.trimmed.startsPlain.append hlow'.nonempty, by
      rw [← List.append_assoc]
      exact hhigh'.trimmed.endsPlain.append hhigh'.nonempty⟩
  -- the blanks next to the brackets are trimmed away
  have hinner : trim (first ++ low ++ separator ++ high ++ last) = low ++ (separator ++ high) := by
    rw [← htrimmed.trim_eq hfirst hlast]
    simp only [List.append_assoc]
  refine ofBrackets?_eq_some_iff.mpr ⟨strict, _, low, high, strict', List.cons_append, ?_,
    hlow'.line, ?_⟩
  · rw [hinner]
    exact hlow'.splitsFirst hseparator hhigh'
  · rw [hlow.bracketSide?_eq hlower, hhigh.bracketSide?_eq hupper, hr]

/-! ## §4 Operators are read -/

/-- An operator is read as a whole where no equals sign follows a strict one. -/
theorem Side.isLongestSymbol {rest : List Char}
    (h : side.bound.strict = true → rest.head? ≠ some '=') :
    IsLongestSymbol (side.comparison.1.symbol.toList ++ rest) side.comparison.1 := by
  have hge : ComparisonOperator.ge.symbol.length = 2 := by decide
  have hle : ComparisonOperator.le.symbol.length = 2 := by decide
  have hgt : ComparisonOperator.gt.symbol.length = 1 := by decide
  have hlt : ComparisonOperator.lt.symbol.length = 1 := by decide
  -- one case for each of the four operators
  rcases side with ⟨_ | _, value⟩ | ⟨_ | _, value⟩
  · exact isLongestSymbol_inclusive rfl hge (List.prefix_append _ _)
  · exact isLongestSymbol_strict rfl hgt (h rfl)
  · exact isLongestSymbol_inclusive rfl hle (List.prefix_append _ _)
  · exact isLongestSymbol_strict rfl hlt (h rfl)

theorem SpellsBound.readsLongest (h : SpellsBound side part) (hside : side.bound.IsOperand) :
    ReadsLongest part side.comparison := by
  obtain ⟨gap, hgap, rfl⟩ := h
  rw [List.append_assoc]
  refine ⟨Side.isLongestSymbol fun hstrict hhead => ?_, _, rfl, ?_⟩
  · -- behind a strict operator stands a blank of the gap or the value, and neither is an equals
    -- sign
    cases gap with
    | nil => exact hside.equals hstrict hhead
    | cons c gap =>
      obtain rfl : c = '=' := by simpa using hhead
      exact absurd (hgap '=' List.mem_cons_self) (by decide)
  · rw [Side.value_comparison]
    exact ⟨(hside.trimmed.trim_gap_append hgap).symm,
      fun heq => hside.nonempty (by rw [heq]; rfl), hside.line⟩

/-- Operators have characters, and no blanks among them. -/
theorem plain_symbol (op : ComparisonOperator) :
    op.symbol.toList ≠ [] ∧ ∀ c ∈ op.symbol.toList, isBlank c = false := by
  cases op <;> simp [ComparisonOperator.symbol] <;> decide

theorem SpellsBound.trimmed (h : SpellsBound side part) (hside : side.bound.IsOperand) :
    Trimmed part ∧ part ≠ [] := by
  obtain ⟨gap, -, rfl⟩ := h
  obtain ⟨hne, hplain⟩ := plain_symbol side.comparison.1
  rw [List.append_assoc]
  refine ⟨⟨StartsPlain.append (fun c hc => hplain c (List.mem_of_mem_head? hc)) hne, ?_⟩,
    by simp [hne]⟩
  rw [← List.append_assoc]
  exact hside.trimmed.endsPlain.append hside.nonempty

/-- Behind the operator there are no words but those of the value. -/
theorem SpellsBound.not_isAnd (h : SpellsBound side part) (hside : side.bound.IsOperand) :
    ∀ word ∈ laterWords part, ¬ IsAnd word := by
  obtain ⟨gap, hgap, rfl⟩ := h
  intro word hword
  rw [List.append_assoc, laterWords_plain_append (plain_symbol _).2] at hword
  exact (hside.words word (laterWords_gap_append_subset hgap hword)).2

/-- What begins with an operator is not in brackets. -/
theorem ReadsPart.ofBrackets?_append_eq_none
    (h : ReadsPart part side.comparison) (tail : List Char) :
    ofBrackets? (part ++ tail) = none := by
  rw [Option.eq_none_iff_forall_ne_some]
  intro r hr
  obtain ⟨strict, inner, _, _, _, hcs, -⟩ := ofBrackets?_eq_some_iff.mp hr
  have hhead := congrArg List.head? hcs
  rw [List.head?_append, h.head?_eq] at hhead
  -- an operator is none of the opening brackets
  cases side <;> cases strict <;> simp [openingBracket] at hhead

theorem AndParts.of_spellsBound (h : SpellsBound side part) (hside : side.bound.IsOperand) :
    AndParts part [part] :=
  -- one part has no separator among its words, so nothing is cut off
  .last fun _ _ _ hpart =>
    not_leads_of_words wordsOnly_isAnd (h.trimmed hside).1.endsPlain (h.not_isAnd hside) hpart

theorem AndParts.of_spellsBounds {side' : Side} {separator part' : List Char}
    (h : SpellsBound side part) (hside : side.bound.IsOperand)
    (hseparator : IsSeparator IsAnd separator) (h' : SpellsBound side' part')
    (hside' : side'.bound.IsOperand) :
    AndParts (part ++ separator ++ part') [part, part'] := by
  have hlead : Leads IsAnd (separator ++ part') part' :=
    ⟨separator, hseparator, rfl, (h'.trimmed hside').1.startsPlain⟩
  rw [List.append_assoc]
  exact .cons (splitsFirst_of_words wordsOnly_isAnd hlead (h.trimmed hside).1.endsPlain
    (h.not_isAnd hside)) (.of_spellsBound h' hside')

/-- The text that brackets enclose, brackets included. -/
theorem trimmed_brackets (strict strict' : Bool) (inner : List Char) :
    Trimmed (openingBracket strict :: inner ++ [closingBracket strict']) where
  startsPlain := startsPlain_cons.mpr (by cases strict <;> decide)
  endsPlain := EndsPlain.append (endsPlain_singleton.mpr (by cases strict' <;> decide)) (by simp)

/-- Every spelling of a range is its trimmed text between blanks, which is read as the range. -/
theorem Spells.exists_reads {cs : List Char} (h : Spells r cs) (hr : r.HasOperands) :
    ∃ before core after, cs = before ++ core ++ after ∧ IsGap before ∧ IsGap after ∧ Trimmed core ∧
      (ofBrackets? core).or (ofOperators? core) = some r := by
  cases h with
  -- between the brackets the sides are read back from their own texts
  | @brackets lower upper strict strict' before first low separator high last after hsides hlow
      hseparator hhigh hbefore hfirst hlast hafter =>
    refine ⟨before, openingBracket strict :: (first ++ low ++ separator ++ high ++ last) ++
      [closingBracket strict'], after, by simp, hbefore, hafter, trimmed_brackets _ _ _, ?_⟩
    rw [ofBrackets?_of_spells hr hsides hlow hseparator hhigh hfirst hlast, Option.some_or]
  | @one side before part after hsides hpart hbefore hafter =>
    have hside := hr side (by simp [hsides])
    obtain ⟨htrimmed, -⟩ := hpart.trimmed hside
    have hread : ReadsPart part side.comparison := .longest (hpart.readsLongest hside)
    have hbrackets := hread.ofBrackets?_append_eq_none []
    rw [List.append_nil] at hbrackets
    refine ⟨before, part, after, rfl, hbefore, hafter, htrimmed, ?_⟩
    -- brackets are tried first, so they have to fail here
    rw [hbrackets, Option.none_or, ofOperators?_eq_some_iff htrimmed]
    refine ⟨_, _, .of_spellsBound hpart hside, .cons hread .nil, ?_⟩
    rw [bounds_eq_map_sides, hsides, List.map_singleton]
  | @two side side' before part separator part' after hsides hpart hseparator hpart' hbefore
      hafter =>
    have hside := hr side (hsides.mem_iff.mpr (by simp))
    have hside' := hr side' (hsides.mem_iff.mpr (by simp))
    obtain ⟨htrimmed, hne⟩ := hpart.trimmed hside
    obtain ⟨htrimmed', hne'⟩ := hpart'.trimmed hside'
    have hread : ReadsPart part side.comparison := .longest (hpart.readsLongest hside)
    have hread' : ReadsPart part' side'.comparison := .longest (hpart'.readsLongest hside')
    have hwhole : Trimmed (part ++ separator ++ part') := by
      refine ⟨?_, htrimmed'.endsPlain.append hne'⟩
      rw [List.append_assoc]
      exact htrimmed.startsPlain.append hne
    have hbrackets := hread.ofBrackets?_append_eq_none (separator ++ part')
    rw [← List.append_assoc] at hbrackets
    refine ⟨before, _, after, rfl, hbefore, hafter, hwhole, ?_⟩
    rw [hbrackets, Option.none_or, ofOperators?_eq_some_iff hwhole]
    -- the bounds are told apart by their operators, so either may come first
    have hbounds : ([side, side'].map Side.comparison).Perm r.bounds :=
      perm_bounds_iff.mpr hsides.symm
    exact ⟨_, _, .of_spellsBounds hpart hside hseparator hpart' hside',
      .cons hread (.cons hread' .nil), hbounds⟩

theorem Spells.parse?_eq {spec : String} (h : Spells r spec.toList) (hr : r.HasOperands) :
    parse? spec = some r := by
  obtain ⟨before, core, after, hcs, hbefore, hafter, htrimmed, hread⟩ := h.exists_reads hr
  rw [parse?_eq_or, hcs, htrimmed.trim_eq hbefore hafter, hread]

end Range

/-! ## §5 Expressions -/

/-- Expressions that differ in the spelling of ranges only. -/
inductive Expression.Respelled : Expression → Expression → Prop
  | refl (e : Expression) : Respelled e e
  | range {r : Range} (hr : r.HasOperands) (column : String) {spec spec' : String}
      (h : r.Spells spec.toList) (h' : r.Spells spec'.toList) :
      Respelled (.range column spec) (.range column spec')
  | not {e e' : Expression} (h : Respelled e e') : Respelled (.not e) (.not e')
  | logical (connective : Connective) {left left' right right' : Expression}
      (hleft : Respelled left left') (hright : Respelled right right') :
      Respelled (.logical connective left right) (.logical connective left' right')
  | group {e e' : Expression} (h : Respelled e e') : Respelled (.group e) (.group e')
  | selectWith (entities : List String) {e e' : Expression} (h : Respelled e e') :
      Respelled (.selectWith entities e) (.selectWith entities e')

theorem Expression.Respelled.condition_eq {e e' : Expression} (h : e.Respelled e') (scope : Scope) :
    Drafting.condition scope e = Drafting.condition scope e' := by
  -- only the node of a range reads the spelling; the others pass on what their parts give
  induction h with
  | refl e => rfl
  | range hr column h h' => simp only [Drafting.condition, h.parse?_eq hr, h'.parse?_eq hr]
  | not _ ih => simp only [Drafting.condition, ih]
  | logical connective _ _ ihleft ihright => simp only [Drafting.condition, ihleft, ihright]
  | group _ ih => simp only [Drafting.condition, ih]
  | selectWith entities _ ih => simp only [Drafting.condition, ih]

theorem Expression.Respelled.compile_eq {e e' : Expression} (h : e.Respelled e') (s : Schema)
    (root : String) (o : CompileOptions) : s.compile root e o = s.compile root e' o := by
  simp only [Schema.compile, Scope.compile, Draft.visit, Drafting.visit, h.condition_eq]

/-- All spellings of a range with operands are read as that range, and expressions that differ in
the spelling of such ranges only are compiled to the same statement with the same values. -/
theorem Range.spellings_agree :
    (∀ (r : Range) (spec : String), r.HasOperands → r.Spells spec.toList → parse? spec = some r) ∧
    ∀ e e' : Expression, e.Respelled e' → ∀ (s : Schema) (root : String) (o : CompileOptions),
      s.compile root e o = s.compile root e' o :=
  ⟨fun _ _ hr h => h.parse?_eq hr, fun _ _ h => h.compile_eq⟩

/-- Above `land >5` and up to `[TO] {`. -/
def Range.landmarks : Range :=
  .between ⟨true, "land >5"⟩ ⟨false, "[TO] \x7b"⟩

theorem Range.spellings_agree_landmarks :
    landmarks.HasOperands ∧ parse? " \x7b land >5\tTO  [TO] \x7b ]" = some landmarks ∧
    parse? "<=[TO] \x7b aNd > land >5" = some landmarks ∧
    Schema.fieldwork.compile "Event" (.not (.range "genus" " \x7b land >5\tTO  [TO] \x7b ]")) {} =
      Schema.fieldwork.compile "Event" (.not (.range "genus" "<=[TO] \x7b aNd > land >5")) {} := by
  have hoperands : landmarks.HasOperands := by
    intro side hside
    rcases List.mem_cons.mp hside with rfl | hside
    · constructor <;> decide
    · obtain rfl := List.mem_singleton.mp hside
      constructor <;> decide
  have hto : IsSeparator IsTo "\tTO  ".toList :=
    ⟨['\t'], ['T', 'O'], [' ', ' '], by decide, by decide, by simp, rfl, by decide, by simp⟩
  have hand : IsSeparator IsAnd " aNd ".toList :=
    ⟨[' '], ['a', 'N', 'd'], [' '], by decide, by decide, by simp, by decide, by decide, by simp⟩
  have hblank : IsGap [' '] := by decide
  have hbrackets : landmarks.Spells " \x7b land >5\tTO  [TO] \x7b ]".toList :=
    .brackets rfl (.bounded ⟨true, "land >5"⟩) hto (.bounded ⟨false, "[TO] \x7b"⟩) hblank hblank
      hblank isGap_nil
  have hsides : landmarks.sides.Perm
      [Side.upper ⟨false, "[TO] \x7b"⟩, Side.lower ⟨true, "land >5"⟩] := .swap _ _ _
  have hoperators : landmarks.Spells "<=[TO] \x7b aNd > land >5".toList :=
    .two hsides ⟨[], isGap_nil, rfl⟩ hand ⟨[' '], hblank, rfl⟩ isGap_nil isGap_nil
  obtain ⟨hparse, hcompile⟩ := spellings_agree
  exact ⟨hoperands, hparse _ _ hoperands hbrackets, hparse _ _ hoperands hoperators,
    hcompile _ _ (.not (.range hoperands "genus" hbrackets hoperators)) _ _ _⟩

end EntityQuery
