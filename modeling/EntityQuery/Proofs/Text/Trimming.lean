import Mathlib.Data.List.DropRight
import EntityQuery.Text.Blank

/-!
# Blanks at the ends and between words

A text is its trimmed text with blanks before and after it (`exists_trim`), and it is the only
trimmed text of which this is true (`Trimmed.trim_eq`). A run without blanks that stands behind a
blank and before a blank or the end is one of the words (`mem_words_append`,
`words_subset_laterWords_append`).
-/

namespace EntityQuery.Text

/-! ## §1 Gaps -/

/-- Blanks, or nothing. -/
def IsGap (cs : List Char) : Prop :=
  ∀ c ∈ cs, isBlank c = true

/-- The text does not begin with a blank. -/
def StartsPlain (cs : List Char) : Prop :=
  ∀ c ∈ cs.head?, isBlank c = false

/-- The text does not end with a blank. -/
def EndsPlain (cs : List Char) : Prop :=
  ∀ c ∈ cs.getLast?, isBlank c = false

/-- A text without blanks at its ends. -/
structure Trimmed (cs : List Char) : Prop where
  startsPlain : StartsPlain cs
  endsPlain : EndsPlain cs

variable {cs before after gap tail word : List Char} {c : Char}

-- without going through all characters
instance : Decidable (IsGap cs) :=
  decidable_of_iff (cs.all isBlank = true) List.all_eq_true

instance : Decidable (StartsPlain cs) :=
  decidable_of_iff (cs.head?.all (!isBlank ·) = true) (by simp [StartsPlain, Option.all_eq_true])

instance : Decidable (EndsPlain cs) :=
  decidable_of_iff (cs.getLast?.all (!isBlank ·) = true) (by simp [EndsPlain, Option.all_eq_true])

instance : Decidable (Trimmed cs) :=
  decidable_of_iff (StartsPlain cs ∧ EndsPlain cs) ⟨fun ⟨h, h'⟩ => ⟨h, h'⟩, fun ⟨h, h'⟩ => ⟨h, h'⟩⟩

theorem IsGap.append (h : IsGap before) (h' : IsGap after) : IsGap (before ++ after) := by
  intro c hc
  exact (List.mem_append.mp hc).elim (h c) (h' c)

theorem startsPlain_cons : StartsPlain (c :: cs) ↔ isBlank c = false := by
  simp [StartsPlain]

theorem endsPlain_singleton : EndsPlain [c] ↔ isBlank c = false := by
  simp [EndsPlain]

theorem StartsPlain.append (h : StartsPlain cs) (hne : cs ≠ []) : StartsPlain (cs ++ after) := by
  obtain ⟨first, others, rfl⟩ := List.exists_cons_of_ne_nil hne
  exact startsPlain_cons.mpr (startsPlain_cons.mp h)

theorem EndsPlain.append (h : EndsPlain cs) (hne : cs ≠ []) : EndsPlain (before ++ cs) := by
  -- the last character is that of the second part
  intro c hc
  rw [List.getLast?_append_of_ne_nil _ hne] at hc
  exact h c hc

theorem EndsPlain.of_append (h : EndsPlain (before ++ cs)) (hne : cs ≠ []) : EndsPlain cs := by
  intro c hc
  apply h
  rwa [List.getLast?_append_of_ne_nil _ hne]

theorem EndsPlain.of_cons (h : EndsPlain (c :: cs)) : EndsPlain cs := by
  by_cases hne : cs = []
  · simp [hne, EndsPlain]
  · exact (show EndsPlain ([c] ++ cs) from h).of_append hne

/-- What does not end with a blank is more than blanks. -/
theorem EndsPlain.not_isGap (h : EndsPlain cs) (hne : cs ≠ []) : ¬ IsGap cs := by
  intro hgap
  have hlast := h _ (List.getLast?_eq_some_getLast hne)
  rw [hgap _ (List.getLast_mem hne)] at hlast
  exact absurd hlast (by simp)

/-! ## §2 Blanks at the start -/

theorem startsPlain_dropBlanks (cs : List Char) : StartsPlain (dropBlanks cs) := by
  intro c hc
  -- what is left begins with the first character that is no blank
  have hne : cs.dropWhile isBlank ≠ [] := by
    intro hnil
    rw [dropBlanks, hnil] at hc
    simp at hc
  have hhead := List.head_dropWhile_not isBlank hne
  rw [dropBlanks, List.head?_eq_some_head hne, Option.mem_some_iff] at hc
  rwa [← hc]

theorem dropBlanks_of_startsPlain (h : StartsPlain cs) : dropBlanks cs = cs := by
  cases cs with
  | nil => rfl
  | cons c cs => exact List.dropWhile_cons_of_neg (by simp [startsPlain_cons.mp h])

theorem dropBlanks_gap_append (h : IsGap gap) : dropBlanks (gap ++ cs) = dropBlanks cs :=
  List.dropWhile_append_of_pos h

theorem exists_dropBlanks (cs : List Char) : ∃ gap, IsGap gap ∧ cs = gap ++ dropBlanks cs :=
  ⟨_, fun _ hc => (List.mem_takeWhile_imp hc), List.takeWhile_append_dropWhile.symm⟩

/-- Where there is something that is no blank, dropping blanks ends before it. -/
theorem dropBlanks_append (h : ¬ IsGap cs) : dropBlanks (cs ++ tail) = dropBlanks cs ++ tail := by
  obtain ⟨gap, hgap, hcs⟩ := exists_dropBlanks cs
  -- otherwise the text would be the blanks that were dropped
  have hne : dropBlanks cs ≠ [] := by
    intro hnil
    rw [hnil, List.append_nil] at hcs
    exact h (hcs ▸ hgap)
  rw [hcs, List.append_assoc, dropBlanks_gap_append hgap, dropBlanks_gap_append hgap,
    dropBlanks_of_startsPlain (startsPlain_dropBlanks cs),
    dropBlanks_of_startsPlain ((startsPlain_dropBlanks cs).append hne)]

/-! ## §3 Trimming -/

theorem dropTrailingBlanks_eq_rdropWhile (cs : List Char) :
    dropTrailingBlanks cs = cs.rdropWhile isBlank := by
  induction cs with
  | nil => rfl
  | cons c cs ih =>
    rw [dropTrailingBlanks, ih]
    -- what is kept of the rest decides whether the first character is at the end
    cases hkept : cs.rdropWhile isBlank with
    | nil =>
      have hgap := List.rdropWhile_eq_nil_iff.mp hkept
      by_cases hc : isBlank c = true
      · have hnil : (c :: cs).rdropWhile isBlank = [] :=
          List.rdropWhile_eq_nil_iff.mpr fun x hx => (List.mem_cons.mp hx).elim (· ▸ hc) (hgap x)
        rw [hnil]
        exact if_pos hc
      · simp only [hc, Bool.false_eq_true, if_false]
        rw [List.rdropWhile, List.reverse_cons, List.dropWhile_append_of_pos (by simpa using hgap)]
        simp [hc]
    | cons kept others =>
      have hne : cs.reverse.dropWhile isBlank ≠ [] := by
        intro hnil
        simp [List.rdropWhile, hnil] at hkept
      rw [List.rdropWhile, List.reverse_cons, List.dropWhile_append]
      simp [hne, ← hkept, List.rdropWhile]

theorem exists_dropTrailingBlanks (cs : List Char) :
    ∃ gap, IsGap gap ∧ cs = dropTrailingBlanks cs ++ gap := by
  rw [dropTrailingBlanks_eq_rdropWhile]
  exact ⟨_, fun _ hc => List.mem_rtakeWhile_imp hc, List.rdropWhile_append_rtakeWhile.symm⟩

theorem endsPlain_dropTrailingBlanks (cs : List Char) : EndsPlain (dropTrailingBlanks cs) := by
  intro c hc
  rw [dropTrailingBlanks_eq_rdropWhile] at hc
  have hne : cs.rdropWhile isBlank ≠ [] := by
    intro hnil
    simp [hnil] at hc
  rw [List.getLast?_eq_some_getLast hne, Option.mem_some_iff] at hc
  have hlast := List.rdropWhile_last_not isBlank cs hne
  rw [hc] at hlast
  simpa using hlast

/-- A text is its trimmed text between blanks. -/
theorem exists_trim (cs : List Char) :
    ∃ before after, IsGap before ∧ IsGap after ∧ cs = before ++ trim cs ++ after := by
  obtain ⟨before, hbefore, hcs⟩ := exists_dropBlanks cs
  obtain ⟨after, hafter, hdrop⟩ := exists_dropTrailingBlanks (dropBlanks cs)
  refine ⟨before, after, hbefore, hafter, ?_⟩
  rw [trim, List.append_assoc, ← hdrop, ← hcs]

theorem trimmed_trim (cs : List Char) : Trimmed (trim cs) where
  startsPlain := by
    intro c hc
    obtain ⟨gap, -, hdrop⟩ := exists_dropTrailingBlanks (dropBlanks cs)
    apply startsPlain_dropBlanks cs
    rw [hdrop]
    exact List.mem_head?_append_of_mem_head? hc
  endsPlain := endsPlain_dropTrailingBlanks _

theorem IsGap.trim_eq (h : IsGap cs) : trim cs = [] := by
  have hdrop : dropBlanks cs = [] := List.dropWhile_eq_nil_iff.mpr h
  rw [trim, hdrop]
  rfl

theorem trim_eq_nil_iff : trim cs = [] ↔ IsGap cs := by
  refine ⟨fun h => ?_, IsGap.trim_eq⟩
  obtain ⟨before, after, hbefore, hafter, hcs⟩ := exists_trim cs
  rw [hcs, h, List.append_nil]
  exact hbefore.append hafter

/-- Between blanks only one text is trimmed. -/
theorem Trimmed.trim_eq (h : Trimmed cs) (hbefore : IsGap before) (hafter : IsGap after) :
    trim (before ++ cs ++ after) = cs := by
  -- without any character in between there is one gap
  by_cases hne : cs = []
  · rw [hne, List.append_nil]
    exact (hbefore.append hafter).trim_eq
  · rw [trim, List.append_assoc, dropBlanks_gap_append hbefore,
      dropBlanks_of_startsPlain (h.startsPlain.append hne), dropTrailingBlanks_eq_rdropWhile]
    rw [List.rdropWhile, List.reverse_append,
      List.dropWhile_append_of_pos (by simpa [IsGap] using hafter)]
    apply List.rdropWhile_eq_self_iff.mpr
    intro hne'
    simp [h.endsPlain _ (List.getLast?_eq_some_getLast hne')]

theorem isGap_nil : IsGap [] :=
  fun _ hc => absurd hc List.not_mem_nil

theorem Trimmed.trim_gap_append (h : Trimmed cs) (hgap : IsGap gap) : trim (gap ++ cs) = cs := by
  simpa using h.trim_eq hgap isGap_nil

theorem trim_of_trimmed (h : Trimmed cs) : trim cs = cs :=
  h.trim_gap_append isGap_nil

theorem trim_isInfix (cs : List Char) : trim cs <:+: cs := by
  obtain ⟨before, after, -, -, hcs⟩ := exists_trim cs
  exact ⟨before, after, hcs.symm⟩

/-! ## §4 Words -/

/-- The words of a text behind its first blank. -/
def laterWords (cs : List Char) : List (List Char) :=
  (splitWords cs).2

theorem words_eq (cs : List Char) :
    words cs = if (splitWords cs).1.isEmpty then laterWords cs
      else (splitWords cs).1 :: laterWords cs :=
  rfl

theorem splitWords_cons_of_blank (h : isBlank c = true) :
    splitWords (c :: cs) = ([], words cs) := by
  simp [splitWords, words, h]

theorem words_cons_of_blank (h : isBlank c = true) : words (c :: cs) = words cs := by
  rw [words, splitWords_cons_of_blank h]
  rfl

theorem laterWords_cons_of_blank (h : isBlank c = true) : laterWords (c :: cs) = words cs := by
  rw [laterWords, splitWords_cons_of_blank h]

theorem laterWords_cons_of_plain (h : isBlank c = false) :
    laterWords (c :: cs) = laterWords cs := by
  simp [laterWords, splitWords, h]

/-- The words of a text are what stands between its blanks, without what is empty. -/
theorem words_eq_filter_splitOnP (cs : List Char) :
    words cs = (cs.splitOnP isBlank).filter (· ≠ []) := by
  -- the first piece may go on to the left, so that only the later ones are words already
  have hpieces : ∃ pieces, cs.splitOnP isBlank = (splitWords cs).1 :: pieces ∧
      laterWords cs = pieces.filter (· ≠ []) := by
    induction cs with
    | nil => exact ⟨[], List.splitOnP_nil, rfl⟩
    | cons c cs ih =>
      obtain ⟨pieces, hsplit, hlater⟩ := ih
      rw [List.splitOnP_cons_eq_if_modifyHead, hsplit]
      cases hc : isBlank c with
      | true =>
        refine ⟨(splitWords cs).1 :: pieces, by rw [splitWords_cons_of_blank hc, if_pos rfl], ?_⟩
        rw [laterWords_cons_of_blank hc, words_eq, hlater]
        split <;> simp_all
      | false =>
        refine ⟨pieces, by simp [splitWords, hc], ?_⟩
        rw [laterWords_cons_of_plain hc, hlater]
  obtain ⟨pieces, hsplit, hlater⟩ := hpieces
  rw [words_eq, hsplit, hlater]
  split <;> simp_all

theorem laterWords_subset_words (cs : List Char) : laterWords cs ⊆ words cs := by
  rw [words_eq]
  split
  · exact List.Subset.refl _
  · exact List.subset_cons_self _ _

/-- Characters in front of a text without a blank among them only make its first word longer. -/
theorem laterWords_plain_append {run : List Char} (h : ∀ c ∈ run, isBlank c = false) :
    laterWords (run ++ cs) = laterWords cs := by
  -- on the run, of which each character goes to the word that begins with the rest
  induction run with
  | nil => rfl
  | cons c run ih =>
    rw [List.cons_append, laterWords_cons_of_plain (h c List.mem_cons_self),
      ih fun x hx => h x (List.mem_cons_of_mem _ hx)]

theorem words_gap_append (h : IsGap gap) : words (gap ++ cs) = words cs := by
  induction gap with
  | nil => rfl
  | cons c gap ih =>
    rw [List.cons_append, words_cons_of_blank (h c List.mem_cons_self),
      ih fun x hx => h x (List.mem_cons_of_mem _ hx)]

theorem laterWords_gap_append_subset (h : IsGap gap) : laterWords (gap ++ cs) ⊆ words cs := by
  cases gap with
  | nil => exact laterWords_subset_words cs
  | cons c gap =>
    rw [List.cons_append, laterWords_cons_of_blank (h c List.mem_cons_self),
      words_gap_append fun x hx => h x (List.mem_cons_of_mem _ hx)]
    exact List.Subset.refl _

theorem words_subset_laterWords_append (h : isBlank c = true) :
    words cs ⊆ laterWords (before ++ c :: cs) := by
  -- a character in front may only add to the words, and takes the first one away at most
  induction before with
  | nil => simp [laterWords_cons_of_blank h]
  | cons first before ih =>
    by_cases hfirst : isBlank first = true
    · rw [List.cons_append, laterWords_cons_of_blank hfirst]
      exact List.Subset.trans ih (laterWords_subset_words _)
    · rwa [List.cons_append, laterWords_cons_of_plain (by simpa using hfirst)]

/-- The run without blanks at the start of a text is its first word. -/
theorem words_append (hword : ∀ c ∈ word, isBlank c = false) (hne : word ≠ [])
    (htail : ∀ c ∈ tail.head?, isBlank c = true) : words (word ++ tail) = word :: words tail := by
  -- the characters of the word come first, until the blank or the end
  have hfirst : (splitWords (word ++ tail)).1 = word := by
    clear hne
    induction word with
    | nil =>
      cases tail with
      | nil => rfl
      | cons c tail => rw [List.nil_append, splitWords_cons_of_blank (htail c rfl)]
    | cons c word ih =>
      simp [splitWords, hword c List.mem_cons_self,
        ih fun x hx => hword x (List.mem_cons_of_mem _ hx)]
  have hothers : laterWords tail = words tail := by
    cases tail with
    | nil => rfl
    | cons c tail =>
      rw [laterWords_cons_of_blank (htail c rfl), words_cons_of_blank (htail c rfl)]
  rw [words_eq, hfirst, if_neg (by simpa using hne), laterWords_plain_append hword, hothers]

theorem mem_words_append (hword : ∀ c ∈ word, isBlank c = false) (hne : word ≠ [])
    (htail : ∀ c ∈ tail.head?, isBlank c = true) : word ∈ words (word ++ tail) := by
  rw [words_append hword hne htail]
  exact List.mem_cons_self

/-- A word is not empty and has no blanks. -/
theorem of_mem_words (h : word ∈ words cs) : word ≠ [] ∧ ∀ c ∈ word, isBlank c = false := by
  -- this holds of what precedes the first blank but for its being empty
  have hsplit : (∀ c ∈ (splitWords cs).1, isBlank c = false) ∧
      ∀ word ∈ laterWords cs, word ≠ [] ∧ ∀ c ∈ word, isBlank c = false := by
    clear h
    induction cs with
    | nil => simp [splitWords, laterWords]
    | cons c cs ih =>
      by_cases hc : isBlank c = true
      · rw [laterWords_cons_of_blank hc, splitWords_cons_of_blank hc, words_eq]
        refine ⟨by simp, ?_⟩
        split
        · exact ih.2
        · rename_i hne
          exact List.forall_mem_cons.mpr ⟨⟨by simpa using hne, ih.1⟩, ih.2⟩
      · have hplain : isBlank c = false := by simpa using hc
        rw [laterWords_cons_of_plain hplain]
        exact ⟨by simpa [splitWords, hplain] using ih.1, ih.2⟩
  rw [words_eq] at h
  split at h
  · exact hsplit.2 word h
  · rename_i hne
    rcases List.mem_cons.mp h with rfl | h
    · exact ⟨by simpa using hne, hsplit.1⟩
    · exact hsplit.2 word h

/-- A run without blanks that begins where a word may begin is the start of a word. -/
theorem exists_word_of_run {run : List Char} (hrun : ∀ c ∈ run, isBlank c = false)
    (hne : run ≠ []) (hbefore : before = [] ∨ ∃ c ∈ before.getLast?, isBlank c = true)
    (after : List Char) : ∃ more, run ++ more ∈ words (before ++ (run ++ after)) := by
  have hsplit : run ++ after =
      (run ++ after.takeWhile (!isBlank ·)) ++ after.dropWhile (!isBlank ·) := by
    rw [List.append_assoc, List.takeWhile_append_dropWhile]
  refine ⟨after.takeWhile (!isBlank ·), ?_⟩
  have hmem : run ++ after.takeWhile (!isBlank ·) ∈ words (run ++ after) := by
    rw [hsplit]
    apply mem_words_append
    · intro c hc
      rcases List.mem_append.mp hc with hc | hc
      · exact hrun c hc
      · simpa using List.mem_takeWhile_imp hc
    · simp [hne]
    · intro c hc
      have hhead := List.head?_dropWhile_not (!isBlank ·) after
      rw [hc] at hhead
      simpa using hhead
  rcases hbefore with rfl | ⟨c, hc, hblank⟩
  · exact hmem
  · obtain ⟨first, rfl⟩ := List.getLast?_eq_some_iff.mp hc
    rw [List.append_assoc, List.singleton_append]
    exact laterWords_subset_words _ (words_subset_laterWords_append hblank hmem)

/-- A run without blanks lies in a word. -/
theorem exists_word_around_run {run : List Char} (hrun : ∀ c ∈ run, isBlank c = false)
    (hne : run ≠ []) (before after : List Char) :
    ∃ start more, start ++ run ++ more ∈ words (before ++ (run ++ after)) := by
  -- the run may begin earlier
  have hsplit := List.rdropWhile_append_rtakeWhile (p := (!isBlank ·)) (l := before)
  have hstart : before.rdropWhile (!isBlank ·) = [] ∨
      ∃ c ∈ (before.rdropWhile (!isBlank ·)).getLast?, isBlank c = true := by
    by_cases hnil : before.rdropWhile (!isBlank ·) = []
    · exact .inl hnil
    · have hlast := List.rdropWhile_last_not (!isBlank ·) before hnil
      exact .inr ⟨_, List.getLast?_eq_some_getLast hnil, by simpa using hlast⟩
  have hwhole : ∀ c ∈ before.rtakeWhile (!isBlank ·) ++ run, isBlank c = false := by
    intro c hc
    rcases List.mem_append.mp hc with hc | hc
    · simpa using List.mem_rtakeWhile_imp hc
    · exact hrun c hc
  obtain ⟨more, hmore⟩ := exists_word_of_run hwhole (by simp [hne]) hstart after
  refine ⟨before.rtakeWhile (!isBlank ·), more, ?_⟩
  rwa [List.append_assoc _ run, ← List.append_assoc, hsplit] at hmore

/-! ## §5 Letters -/

/-- No blank is a capital letter. -/
theorem toLower_of_isBlank (h : isBlank c = true) : c.toLower = c := by
  simp only [isBlank, blankRanges, List.any_cons, List.any_nil, Bool.or_false, Bool.or_eq_true,
    Bool.and_eq_true, decide_eq_true_eq] at h
  have hupper : ¬ (c.val ≥ 'A'.val ∧ c.val ≤ 'Z'.val) := by
    simp only [ge_iff_le, UInt32.le_iff_toNat_le]
    show ¬ (65 ≤ c.toNat ∧ c.toNat ≤ 90)
    omega
  exact dif_neg hupper

end EntityQuery.Text
