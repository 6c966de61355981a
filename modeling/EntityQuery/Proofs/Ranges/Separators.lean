import EntityQuery.Range
import EntityQuery.Proofs.Text.Trimming

/-!
# Words that separate

The two sides of a range in brackets stand around the word `TO`, and two bounds with operators
around the word `and`, in both cases with blanks on either side of the word. A text is split where
such a separator begins first (`splitTo?_eq_some_iff`, `splitAnd?_eq_some_iff`). Separators lie
between words, so there is none in a text without the word (`exists_laterWord_of_leads`).
-/

namespace EntityQuery.Range

open Text

/-! ## §1 Separators -/

def IsTo (word : List Char) : Prop :=
  word = ['T', 'O']

/-- The word `and` in whatever case. -/
def IsAnd (word : List Char) : Prop :=
  word.map Char.toLower = ['a', 'n', 'd']

instance : DecidablePred IsTo :=
  fun word => inferInstanceAs (Decidable (word = ['T', 'O']))

instance : DecidablePred IsAnd :=
  fun word => inferInstanceAs (Decidable (word.map Char.toLower = ['a', 'n', 'd']))

/-- A word of some kind with blanks on both sides. -/
def IsSeparator (p : List Char → Prop) (cs : List Char) : Prop :=
  ∃ before word after, cs = before ++ word ++ after ∧ IsGap before ∧ before ≠ [] ∧ p word ∧
    IsGap after ∧ after ≠ []

/-- A text begins with a separator, and with the blanks that belong to it. -/
def Leads (p : List Char → Prop) (cs rest : List Char) : Prop :=
  ∃ separator, IsSeparator p separator ∧ cs = separator ++ rest ∧ StartsPlain rest

/-- A text is split at the first place from which something leads to the rest. -/
def SplitsFirst (leads : List Char → List Char → Prop) (cs first rest : List Char) : Prop :=
  ∃ tail, cs = first ++ tail ∧ leads tail rest ∧
    ∀ before after other, first = before ++ after → after ≠ [] → ¬ leads (after ++ tail) other

variable {p : List Char → Prop} {cs rest first tail word : List Char}

/-- Words of a kind have characters, and no blanks among them. -/
def WordsOnly (p : List Char → Prop) : Prop :=
  ∀ word, p word → word ≠ [] ∧ ∀ c ∈ word, isBlank c = false

theorem wordsOnly_isTo : WordsOnly IsTo := by
  rintro word rfl
  refine ⟨by simp, fun c hc => ?_⟩
  rcases List.mem_cons.mp hc with rfl | hc
  · decide
  · rw [List.mem_singleton.mp hc]
    decide

theorem wordsOnly_isAnd : WordsOnly IsAnd := by
  intro word hword
  refine ⟨?_, fun c hc => ?_⟩
  · rintro rfl
    exact absurd hword (by simp [IsAnd])
  · -- a blank would be left alone by the change of case
    by_contra hblank
    have hlower : c.toLower ∈ ['a', 'n', 'd'] := hword ▸ List.mem_map_of_mem hc
    rw [toLower_of_isBlank (by simpa using hblank)] at hlower
    have hplain : ∀ x ∈ ['a', 'n', 'd'], isBlank x = false := by
      simp only [List.forall_mem_cons]
      exact ⟨by decide, by decide, by decide, by simp⟩
    exact hblank (hplain c hlower)

/-- What leads is seen from the first character and from what follows the blanks. -/
theorem leads_iff (hp : WordsOnly p) : Leads p cs rest ↔
    (∃ c ∈ cs.head?, isBlank c = true) ∧ ∃ word d tail, p word ∧
      dropBlanks cs = word ++ d :: tail ∧ isBlank d = true ∧ rest = dropBlanks tail := by
  constructor
  · rintro ⟨_, ⟨before, word, after, rfl, hbefore, hbefore_ne, hword, hafter, hafter_ne⟩, rfl,
      hrest⟩
    -- both gaps have a first blank, of which the word needs no more
    obtain ⟨c, before, rfl⟩ := List.exists_cons_of_ne_nil hbefore_ne
    obtain ⟨d, after, rfl⟩ := List.exists_cons_of_ne_nil hafter_ne
    obtain ⟨hword_ne, hplain⟩ := hp word hword
    have hstart : StartsPlain word := fun x hx => hplain x (List.mem_of_mem_head? hx)
    refine ⟨⟨c, rfl, hbefore c List.mem_cons_self⟩, word, d, after ++ rest, hword, ?_,
      hafter d List.mem_cons_self, ?_⟩
    · rw [List.append_assoc, List.append_assoc, dropBlanks_gap_append hbefore,
        dropBlanks_of_startsPlain (hstart.append hword_ne), List.cons_append]
    · rw [dropBlanks_gap_append fun x hx => hafter x (List.mem_cons_of_mem _ hx),
        dropBlanks_of_startsPlain hrest]
  · rintro ⟨⟨c, hc, hblank⟩, word, d, tail, hword, hdrop, hd, rfl⟩
    -- the blanks before the word and behind it are put back
    obtain ⟨before, hbefore, hcs⟩ := exists_dropBlanks cs
    obtain ⟨after, hafter, htail⟩ := exists_dropBlanks tail
    obtain ⟨hword_ne, hplain⟩ := hp word hword
    refine ⟨before ++ word ++ d :: after, ⟨before, word, d :: after, rfl, hbefore, ?_, hword, ?_,
      by simp⟩, ?_, startsPlain_dropBlanks tail⟩
    · -- the first character is a blank, so that the word does not stand at the start
      rintro rfl
      obtain ⟨first, others, rfl⟩ := List.exists_cons_of_ne_nil hword_ne
      rw [hcs, hdrop] at hc
      obtain rfl := Option.some.inj hc
      rw [hplain first List.mem_cons_self] at hblank
      exact absurd hblank (by simp)
    · exact List.forall_mem_cons.mpr ⟨hd, hafter⟩
    · simp only [List.append_assoc, List.cons_append]
      rw [← htail, ← hdrop, ← hcs]

theorem not_leads_nil : ¬ Leads p [] rest := by
  rintro ⟨_, ⟨before, word, after, rfl, -, hne, -⟩, hnil, -⟩
  simp [hne] at hnil

/-- What leads begins with a blank. -/
theorem Leads.startsBlank (h : Leads p cs rest) :
    ∃ c others, cs = c :: others ∧ isBlank c = true := by
  obtain ⟨_, ⟨before, word, after, rfl, hbefore, hne, -⟩, rfl, -⟩ := h
  obtain ⟨c, before, rfl⟩ := List.exists_cons_of_ne_nil hne
  exact ⟨c, _, rfl, hbefore c List.mem_cons_self⟩

/-- One more blank in front makes no difference. -/
theorem Leads.cons (h : Leads p cs rest) {c : Char} (hc : isBlank c = true) :
    Leads p (c :: cs) rest := by
  obtain ⟨_, ⟨before, word, after, rfl, hbefore, -, hword⟩, rfl, hrest⟩ := h
  exact ⟨_, ⟨c :: before, word, after, rfl, List.forall_mem_cons.mpr ⟨hc, hbefore⟩, by simp, hword⟩,
    rfl, hrest⟩

theorem SplitsFirst.length_lt (h : SplitsFirst (Leads p) cs first rest) :
    rest.length < cs.length := by
  obtain ⟨tail, rfl, ⟨_, ⟨before, word, after, rfl, -, hne, -⟩, rfl, -⟩, -⟩ := h
  have hpos := List.length_pos_iff.mpr hne
  simp only [List.length_append]
  omega

/-- What a trimmed text is split into has no blanks at its ends either, and is not empty. -/
theorem SplitsFirst.pieces {leads : List Char → List Char → Prop}
    (h : SplitsFirst leads cs first rest) (hleads : ∀ {cs rest}, leads cs rest → Leads p cs rest)
    (hcons : ∀ {cs rest}, leads cs rest → ∀ {c}, isBlank c = true → leads (c :: cs) rest)
    (hcs : Trimmed cs) : Trimmed first ∧ first ≠ [] ∧ Trimmed rest ∧ rest ≠ [] := by
  obtain ⟨tail, rfl, hlead, hfirst⟩ := h
  obtain ⟨_, ⟨before, word, after, rfl, -, -, -, hafter, hafter_ne⟩, htail, hrest⟩ := hleads hlead
  -- a trimmed text has no blank at its start, and a separator begins with one
  have hfirst_ne : first ≠ [] := by
    rintro rfl
    obtain ⟨c, others, rfl, hblank⟩ := (hleads hlead).startsBlank
    have hstart := startsPlain_cons.mp hcs.startsPlain
    rw [hblank] at hstart
    exact absurd hstart (by simp)
  have hrest_ne : rest ≠ [] := by
    rintro rfl
    -- the rest is not empty, or the text would end in the blanks of the separator
    have hend : EndsPlain ((first ++ (before ++ word)) ++ after) := by
      simpa only [htail, List.append_assoc, List.append_nil] using hcs.endsPlain
    exact (hend.of_append hafter_ne).not_isGap hafter_ne hafter
  refine ⟨⟨fun x hx => ?_, fun x hx => ?_⟩, hfirst_ne, ⟨hrest, ?_⟩, hrest_ne⟩
  · exact hcs.startsPlain x (List.mem_head?_append_of_mem_head? hx)
  · -- with a blank at its end the first part would have ended before that
    by_contra hblank
    obtain ⟨before, rfl⟩ := List.getLast?_eq_some_iff.mp hx
    exact hfirst before [x] rest rfl (by simp) (hcons hlead (by simpa using hblank))
  · rw [htail, ← List.append_assoc] at hcs
    exact hcs.endsPlain.of_append hrest_ne

/-! ## §2 The word of a separator -/

/-- A separator that begins within a text and does not go beyond its end has its word among the
words of the text. -/
theorem exists_laterWord_of_leads (before : List Char) (hp : WordsOnly p) {after : List Char}
    (hne : after ≠ []) (hend : EndsPlain after) (htail : ∀ c ∈ tail.head?, isBlank c = true)
    (h : Leads p (after ++ tail) rest) : ∃ word ∈ laterWords (before ++ after), p word := by
  obtain ⟨⟨c, hc, hblank⟩, word, d, others, hword, hdrop, hd, -⟩ := (leads_iff hp).mp h
  obtain ⟨first, after, rfl⟩ := List.exists_cons_of_ne_nil hne
  obtain rfl : first = c := by simpa using hc
  obtain ⟨hword_ne, hplain⟩ := hp word hword
  have hnot : ¬ IsGap (first :: after) := hend.not_isGap hne
  refine ⟨word, words_subset_laterWords_append hblank ?_, hword⟩
  -- the run without blanks ends where the text ends, or at a blank before that
  rw [dropBlanks_append hnot] at hdrop
  have hafter : dropBlanks (first :: after) = dropBlanks after :=
    dropBlanks_gap_append fun x hx => by rwa [List.mem_singleton.mp hx]
  obtain ⟨gap, hgap, hsplit⟩ := exists_dropBlanks after
  rw [hsplit, words_gap_append hgap]
  rw [hafter] at hdrop
  rcases List.append_eq_append_iff.mp hdrop with ⟨rest', hword_eq, htail_eq⟩ | ⟨rest', heq, hd_eq⟩
  · -- the word does not run on into the tail, which begins with a blank
    have hnil : rest' = [] := by
      by_contra hrest_ne
      obtain ⟨x, xs, rfl⟩ := List.exists_cons_of_ne_nil hrest_ne
      have hx := htail x (by rw [htail_eq]; rfl)
      rw [hplain x (by rw [hword_eq]; simp)] at hx
      exact absurd hx (by simp)
    rw [hnil, List.append_nil] at hword_eq
    rw [← hword_eq]
    have hmem : word ∈ words (word ++ []) := mem_words_append hplain hword_ne (by simp)
    rwa [List.append_nil] at hmem
  · -- the word ends within the text, and what stands behind it there is a blank
    rw [heq]
    apply mem_words_append hplain hword_ne
    intro x hx
    cases rest' with
    | nil => simp at hx
    | cons y ys =>
      obtain rfl : y = x := by simpa using hx
      rw [← (List.cons.inj hd_eq).1]
      exact hd

/-- Around a separator a text is split there, if the word is not among those before it. -/
theorem splitsFirst_of_words (hp : WordsOnly p) (hlead : Leads p tail rest) (hend : EndsPlain first)
    (hwords : ∀ word ∈ laterWords first, ¬ p word) :
    SplitsFirst (Leads p) (first ++ tail) first rest := by
  refine ⟨tail, rfl, hlead, ?_⟩
  rintro before after other rfl hne hother
  -- the separator itself begins with a blank, as every later one would have to
  obtain ⟨c, others, rfl, hc⟩ := hlead.startsBlank
  obtain ⟨word, hword, hpword⟩ := exists_laterWord_of_leads before hp hne
    (hend.of_append hne) (by simpa using hc) hother
  exact hwords word hword hpword

/-- Without the word there is no separator. -/
theorem not_leads_of_words (hp : WordsOnly p) (hend : EndsPlain cs)
    (hwords : ∀ word ∈ laterWords cs, ¬ p word) {before : List Char} (hcs : cs = before ++ tail) :
    ¬ Leads p tail rest := by
  intro hlead
  obtain ⟨c, others, rfl, -⟩ := hlead.startsBlank
  -- this is the lemma with nothing behind the text
  rw [hcs] at hend hwords
  have hlead' : Leads p (c :: others ++ []) rest := by rwa [List.append_nil]
  obtain ⟨word, hword, hpword⟩ := exists_laterWord_of_leads before hp (by simp)
    (hend.of_append (by simp)) (by simp) hlead'
  exact hwords word hword hpword

/-! ## §3 What leads is found -/

theorem afterTo?_eq_some_iff : afterTo? cs = some rest ↔ Leads IsTo cs rest := by
  rw [leads_iff wordsOnly_isTo]
  unfold afterTo?
  split
  · rename_i c _ d tail hdrop
    simp only [hdrop, Option.ite_none_right_eq_some, Bool.and_eq_true, Option.some.injEq]
    constructor
    · rintro ⟨⟨hc, hd⟩, rfl⟩
      exact ⟨⟨c, rfl, hc⟩, _, d, tail, rfl, rfl, hd, rfl⟩
    · -- the blank behind the word is the one that was found, and so is the tail
      rintro ⟨⟨_, ⟨⟩, hc⟩, _, d', tail', rfl, htail, hd, rfl⟩
      obtain ⟨rfl, rfl⟩ : d = d' ∧ tail = tail' := by simpa using htail
      exact ⟨⟨hc, hd⟩, rfl⟩
  · rename_i hother
    refine ⟨fun h => absurd h (by simp), ?_⟩
    -- a text that leads has the shape after all
    rintro ⟨⟨c, hc, -⟩, _, d, tail, rfl, hdrop, -⟩
    obtain ⟨others, rfl⟩ := List.head?_eq_some_iff.mp hc
    exact absurd hdrop (hother c others d tail rfl)

theorem afterAnd?_eq_some_iff : afterAnd? cs = some rest ↔ Leads IsAnd cs rest := by
  rw [leads_iff wordsOnly_isAnd]
  unfold afterAnd?
  split
  · rename_i c _ x y z d tail hdrop
    simp only [hdrop, Option.ite_none_right_eq_some, Bool.and_eq_true, Option.some.injEq,
      decide_eq_true_eq]
    constructor
    · rintro ⟨⟨⟨hc, hword⟩, hd⟩, rfl⟩
      exact ⟨⟨c, rfl, hc⟩, [x, y, z], d, tail, hword, rfl, hd, rfl⟩
    · rintro ⟨⟨_, ⟨⟩, hc⟩, word, d', tail', hword, htail, hd, rfl⟩
      -- a word of three characters is taken apart, to compare it with the ones that were found
      have hlength : word.length = 3 := by simpa using congrArg List.length hword
      obtain ⟨x', y', z', rfl⟩ := List.length_eq_three.mp hlength
      obtain ⟨⟨rfl, rfl, rfl⟩, rfl, rfl⟩ : (x = x' ∧ y = y' ∧ z = z') ∧ d = d' ∧ tail = tail' := by
        simpa [and_assoc] using htail
      exact ⟨⟨⟨hc, hword⟩, hd⟩, rfl⟩
  · rename_i hother
    refine ⟨fun h => absurd h (by simp), ?_⟩
    rintro ⟨⟨c, hc, -⟩, word, d, tail, hword, hdrop, -⟩
    obtain ⟨others, rfl⟩ := List.head?_eq_some_iff.mp hc
    have hlength : word.length = 3 := by simpa using congrArg List.length hword
    obtain ⟨x, y, z, rfl⟩ := List.length_eq_three.mp hlength
    exact absurd hdrop (hother c others x y z d tail rfl)

/-- The word `TO` with blanks around it leads to the upper side of a range in brackets, unless that
has a line feed. -/
def LeadsToSide (cs rest : List Char) : Prop :=
  Leads IsTo cs rest ∧ '\n' ∉ rest

theorem filter_afterTo?_eq_some_iff :
    (afterTo? cs).filter (!·.contains '\n') = some rest ↔ LeadsToSide cs rest := by
  rw [Option.filter_eq_some_iff, afterTo?_eq_some_iff, LeadsToSide]
  simp

/-! ## §4 Splitting -/

/-- Splitting looks for the first place from which something leads on, and gives up at certain
characters. -/
structure Splitter (lead : List Char → Option (List Char)) (stop : Char → Bool)
    (split : List Char → Option (List Char × List Char)) : Prop where
  nil : split [] = none
  lead_nil : lead [] = none
  found : ∀ {c cs rest}, lead (c :: cs) = some rest → split (c :: cs) = some ([], rest)
  other : ∀ {c cs}, lead (c :: cs) = none →
    split (c :: cs) =
      if stop c then none else (split cs).map fun (first, rest) => (c :: first, rest)

namespace Splitter

variable {lead : List Char → Option (List Char)} {stop : Char → Bool}
  {split : List Char → Option (List Char × List Char)}

theorem eq_some_iff (h : Splitter lead stop split) : split cs = some (first, rest) ↔
    SplitsFirst (lead · = some ·) cs first rest ∧ ∀ c ∈ first, stop c = false := by
  -- on the text: each character is either the place to split at or goes to the first part
  induction cs generalizing first with
  | nil =>
    rw [h.nil]
    refine ⟨fun hnone => absurd hnone (by simp), ?_⟩
    rintro ⟨⟨tail, hnil, hlead, -⟩, -⟩
    rw [(List.append_eq_nil_iff.mp hnil.symm).2, h.lead_nil] at hlead
    exact absurd hlead (by simp)
  | cons c cs ih =>
    cases hlead : lead (c :: cs) with
    | some found =>
      rw [h.found hlead]
      constructor
      · rintro ⟨⟩
        refine ⟨⟨c :: cs, rfl, hlead, fun before after _ hnil hne => ?_⟩, by simp⟩
        exact absurd (List.append_eq_nil_iff.mp hnil.symm).2 hne
      · rintro ⟨⟨tail, hcs, htail, hfirst⟩, -⟩
        -- it could be split here, so that nothing stands before
        have hnil : first = [] := by
          by_contra hne
          exact hfirst [] first found rfl hne (hcs ▸ hlead)
        rw [hnil, List.nil_append] at hcs
        rw [hcs, htail] at hlead
        rw [hnil, Option.some.inj hlead]
    | none =>
      rw [h.other hlead]
      constructor
      · intro hsplit
        rw [Option.ite_none_left_eq_some, Option.map_eq_some_iff] at hsplit
        obtain ⟨hstop, ⟨others, _⟩, hothers, hpair⟩ := hsplit
        obtain ⟨rfl, rfl⟩ := Prod.mk.inj hpair
        obtain ⟨⟨tail, rfl, htail, hfirst⟩, hplain⟩ := ih.mp hothers
        refine ⟨⟨tail, rfl, htail, ?_⟩, List.forall_mem_cons.mpr ⟨by simpa using hstop, hplain⟩⟩
        intro before after other heq hne
        cases before with
        | nil =>
          rw [List.nil_append] at heq
          -- nothing leads from here, and from later places nothing does by the induction
          simp [← heq, hlead]
        | cons x before => exact hfirst before after other (List.cons.inj heq).2 hne
      · rintro ⟨⟨tail, hcs, htail, hfirst⟩, hplain⟩
        cases first with
        | nil =>
          rw [List.nil_append] at hcs
          rw [← hcs, hlead] at htail
          exact absurd htail (by simp)
        -- the first part begins with this character, and the others are split off from the rest
        | cons x others =>
          obtain ⟨rfl, rfl⟩ := List.cons.inj hcs
          obtain ⟨hx, hothers⟩ := List.forall_mem_cons.mp hplain
          have hsplits : SplitsFirst (lead · = some ·) (others ++ tail) others rest :=
            ⟨tail, rfl, htail, fun before after other heq =>
              hfirst (c :: before) after other (by rw [heq, List.cons_append])⟩
          rw [ih.mpr ⟨hsplits, hothers⟩]
          simp [hx]

end Splitter

theorem splitter_splitAnd? : Splitter afterAnd? (fun _ => false) splitAnd? where
  nil := rfl
  lead_nil := rfl
  found h := by rw [splitAnd?, h]
  other h := by
    rw [splitAnd?, h]
    rfl

theorem splitter_splitTo? :
    Splitter (fun cs => (afterTo? cs).filter (!·.contains '\n')) (· = '\n') splitTo? where
  nil := rfl
  lead_nil := rfl
  found h := by rw [splitTo?, h]
  other h := by
    rw [splitTo?, h]
    simp

/-- Parts are cut off at the first `and`. -/
theorem splitAnd?_eq_some_iff :
    splitAnd? cs = some (first, rest) ↔ SplitsFirst (Leads IsAnd) cs first rest := by
  rw [splitter_splitAnd?.eq_some_iff]
  simp [afterAnd?_eq_some_iff]

/-- The sides of a range in brackets are cut at the first `TO` that leaves no line feed. -/
theorem splitTo?_eq_some_iff :
    splitTo? cs = some (first, rest) ↔ SplitsFirst LeadsToSide cs first rest ∧ '\n' ∉ first := by
  rw [splitter_splitTo?.eq_some_iff]
  simp only [filter_afterTo?_eq_some_iff, decide_eq_false_iff_not]
  exact and_congr_right fun _ => ⟨fun h hmem => h _ hmem rfl, fun h c hc heq => h (heq ▸ hc)⟩

theorem splitAnd?_eq_none_iff :
    splitAnd? cs = none ↔ ∀ before tail rest, cs = before ++ tail → ¬ Leads IsAnd tail rest := by
  -- on the text, as a place further on is a place of what is left
  induction cs with
  | nil =>
    refine ⟨fun _ before tail rest hnil => ?_, fun _ => rfl⟩
    rw [(List.append_eq_nil_iff.mp hnil.symm).2]
    exact not_leads_nil
  | cons c cs ih =>
    cases hafter : afterAnd? (c :: cs) with
    | some rest =>
      rw [splitter_splitAnd?.found hafter]
      refine ⟨fun h => absurd h (by simp), fun h => ?_⟩
      exact absurd (afterAnd?_eq_some_iff.mp hafter) (h [] _ rest rfl)
    | none =>
      rw [splitter_splitAnd?.other hafter, if_neg (by simp), Option.map_eq_none_iff, ih]
      constructor
      · intro h before tail rest hcs hlead
        cases before with
        | nil =>
          rw [List.nil_append] at hcs
          rw [← hcs, ← afterAnd?_eq_some_iff, hafter] at hlead
          exact absurd hlead (by simp)
        | cons x before => exact h before tail rest (List.cons.inj hcs).2 hlead
      · intro h before tail rest hcs
        exact h (c :: before) tail rest (by rw [hcs, List.cons_append])

end EntityQuery.Range
