import Mathlib.Data.Option.Basic
import EntityQuery.Proofs.Ranges.Separators
import EntityQuery.Proofs.Ranges.Sides

/-!
# Ranges in brackets

A text is in bracket form if it is two texts around the word `TO`, between an opening and a closing
bracket, with blanks wherever they do no harm. Only such texts are read as ranges in brackets
(`inBrackets_of_ofBrackets?`), and how the range comes about is told by `ofBrackets?_eq_some_iff`.
-/

namespace EntityQuery.Range

open Text

/-! ## §1 The form -/

def openingBracket (strict : Bool) : Char :=
  if strict then '\x7b' else '['

def closingBracket (strict : Bool) : Char :=
  if strict then '\x7d' else ']'

/-- The bracket form: two sides around `TO` between brackets. -/
def InBrackets (cs : List Char) : Prop :=
  ∃ before strict first low separator high last strict' after,
    cs = before ++ openingBracket strict :: (first ++ low ++ separator ++ high ++ last) ++
      closingBracket strict' :: after ∧
    IsGap before ∧ IsGap first ∧ '\n' ∉ low ∧ IsSeparator IsTo separator ∧ '\n' ∉ high ∧
    IsGap last ∧ IsGap after

variable {cs inner low high : List Char} {strict strict' : Bool} {r : Range}

/-! ## §2 How it is read -/

theorem unbracket?_eq_some_iff : unbracket? cs = some (strict, inner, strict') ↔
    cs = openingBracket strict :: (inner ++ [closingBracket strict']) := by
  constructor
  · intro h
    simp only [unbracket?, Option.pure_def, Option.bind_eq_bind, Option.bind_eq_some_iff,
      Option.guard_eq_some', Option.some.injEq, Prod.mk.injEq, Bool.and_eq_true, Bool.or_eq_true,
      decide_eq_true_eq] at h
    obtain ⟨opening, hopening, closing, hclosing, _, ⟨hopen, hclose⟩, rfl, rfl, rfl⟩ := h
    obtain ⟨others, rfl⟩ := List.head?_eq_some_iff.mp hopening
    obtain ⟨before, heq⟩ := List.getLast?_eq_some_iff.mp hclosing
    -- a single bracket does not open and close at once
    have hothers : others ≠ [] := by
      rintro rfl
      rw [List.getLast?_singleton, Option.some.injEq] at hclosing
      rcases hopen with rfl | rfl <;> rcases hclose with rfl | rfl <;> simp at hclosing
    have hlast : others = others.dropLast ++ [closing] := by
      rw [List.getLast?_cons_of_ne_nil hothers] at hclosing
      exact (List.dropLast_append_getLast? closing hclosing).symm
    have hopen_eq : opening = openingBracket (opening = '\x7b') := by
      rcases hopen with rfl | rfl <;> rfl
    have hclose_eq : closing = closingBracket (closing = '\x7d') := by
      rcases hclose with rfl | rfl <;> rfl
    rw [← hopen_eq, ← hclose_eq, List.tail_cons, ← hlast]
  · rintro rfl
    have hlast : (openingBracket strict :: (inner ++ [closingBracket strict'])).getLast? =
        some (closingBracket strict') := by
      rw [← List.cons_append, List.getLast?_concat]
    rw [unbracket?, hlast]
    cases strict <;> cases strict' <;> simp [openingBracket, closingBracket]

theorem ofBrackets?_eq_some_iff : ofBrackets? cs = some r ↔
    ∃ strict inner low high strict',
      cs = openingBracket strict :: (inner ++ [closingBracket strict']) ∧
      SplitsFirst LeadsToSide (trim inner) low high ∧ '\n' ∉ low ∧
      ofSides? (bracketSide? strict low) (bracketSide? strict' high) = some r := by
  simp only [ofBrackets?, Option.bind_eq_bind, Option.bind_eq_some_iff, Prod.exists,
    unbracket?_eq_some_iff, splitTo?_eq_some_iff]
  constructor
  · rintro ⟨strict, inner, strict', hcs, low, high, ⟨hsplits, hlow⟩, hsides⟩
    exact ⟨strict, inner, low, high, strict', hcs, hsplits, hlow, hsides⟩
  · rintro ⟨strict, inner, low, high, strict', hcs, hsplits, hlow, hsides⟩
    exact ⟨strict, inner, strict', hcs, low, high, ⟨hsplits, hlow⟩, hsides⟩

/-- What is read as a range in brackets is in bracket form. -/
theorem inBrackets_of_ofBrackets? (h : ofBrackets? (trim cs) = some r) : InBrackets cs := by
  obtain ⟨strict, inner, low, high, strict', hcs, ⟨tail, htail, ⟨⟨separator, hseparator, hsplit, -⟩,
    hhigh⟩, -⟩, hlow, -⟩ := ofBrackets?_eq_some_iff.mp h
  obtain ⟨before, after, hbefore, hafter, hwhole⟩ := exists_trim cs
  -- the gaps around the text and those next to the brackets are put back
  obtain ⟨first, last, hfirst, hlast, hinner⟩ := exists_trim inner
  refine ⟨before, strict, first, low, separator, high, last, strict', after, ?_, hbefore, hfirst,
    hlow, hseparator, hhigh, hlast, hafter⟩
  rw [htail, hsplit] at hinner
  rw [hwhole, hcs, hinner]
  simp only [List.append_assoc, List.cons_append, List.nil_append]

/-- Brackets are tried first. -/
theorem parse?_eq_or (spec : String) :
    parse? spec = (ofBrackets? (trim spec.toList)).or (ofOperators? (trim spec.toList)) := by
  simp only [parse?]
  cases ofBrackets? (trim spec.toList) <;> rfl

end EntityQuery.Range
