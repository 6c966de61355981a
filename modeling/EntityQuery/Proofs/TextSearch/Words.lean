import Mathlib.Data.Set.Finite.Basic
import Mathlib.Order.Preorder.Finite
import EntityQuery.Proofs.Text.Trimming
import EntityQuery.Proofs.TextSearch.Language
import EntityQuery.Proofs.WhereClause

/-!
# Searches for words

The words of a term are written with `&` between them, each as it is. A word with a sign of the
language of searches in it is read as something else, and one such word is enough: the text asks for
the words of the term exactly if each of them is inert (`Draft.search_denotes_words_iff`).

If a text does so, each word is the word of an operand of it. A word that is not inert is written
there in more characters than it has. These lie in one word of the term, which is longer and again
not inert, and this cannot go on.
-/

namespace EntityQuery

namespace TextSearch

/-! ## §1 Inert words -/

/-- A word in which there is no sign of the language. A quote has no meaning but at the start. -/
def Inert (word : List Char) : Prop :=
  word.head? ≠ some '\'' ∧ ∀ c ∈ word, startsSymbol c = false ∧ c ≠ ':' ∧ c ≠ '\\'

-- without going through all characters
instance (word : List Char) : Decidable (Inert word) :=
  decidable_of_iff (word.head? ≠ some '\'' ∧
    word.all (fun c => !startsSymbol c && c != ':' && c != '\\') = true)
    (by simp [Inert, and_assoc])

/-- What the words of a text are: not empty, and without blanks. -/
def IsWord (word : List Char) : Prop :=
  word ≠ [] ∧ ∀ c ∈ word, Text.isBlank c = false

/-- Words with `&` between them. -/
def joined (words : List (List Char)) : List Char :=
  [' ', '&', ' '].intercalate words

variable {word rest : List Char} {words : List (List Char)}

theorem bareWord?_append (hword : ∀ c ∈ word, endsWord c = false ∧ c ≠ '\\')
    (hrest : ∀ c ∈ rest.head?, endsWord c = true) :
    bareWord? (word ++ rest) = some (word, rest) := by
  -- the rest begins with a character that ends words, or is empty
  induction word with
  | nil =>
    cases rest with
    | nil => rfl
    | cons c rest =>
      have hend := hrest c rfl
      have hslash : c ≠ '\\' := by
        rintro rfl
        exact absurd hend (by decide)
      simp [bareWord?, hslash, hend]
  | cons c word ih =>
    obtain ⟨⟨hend, hslash⟩, hword⟩ := List.forall_mem_cons.mp hword
    simp [bareWord?, hslash, hend, ih hword, prepend]

/-- An inert word is an operand by itself. -/
theorem operand?_append (hword : IsWord word) (hinert : Inert word)
    (hrest : ∀ c ∈ rest.head?, Text.isBlank c = true) :
    operand? (word ++ rest) = some (⟨word, []⟩, rest) := by
  have hbare : bareWord? (word ++ rest) = some (word, rest) := by
    apply bareWord?_append
    · intro c hc
      obtain ⟨hsymbol, hcolon, hslash⟩ := hinert.2 c hc
      exact ⟨by simp [endsWord, hword.2 c hc, hsymbol, hcolon], hslash⟩
    · intro c hc
      simp [endsWord, hrest c hc]
  have hread : word? (word ++ rest) = some (word, rest) := by
    obtain ⟨c, others, rfl⟩ := List.exists_cons_of_ne_nil hword.1
    have hquote : c ≠ '\'' := by simpa using hinert.1
    rw [← hbare]
    simp [word?, hquote]
  have hmarks : marks rest = ([], rest) := by
    cases rest with
    | nil => rfl
    | cons c rest =>
      have hcolon : c ≠ ':' := by
        rintro rfl
        exact absurd (hrest ':' rfl) (by decide)
      simp [marks, hcolon]
  have hbreak : rest.head?.all (fun c => Text.isBlank c || startsSymbol c) = true := by
    apply (Option.all_eq_true _ _).mpr
    intro c hc
    simp [hrest c hc]
  simp [operand?, hread, hmarks, hbreak, hword.1]

theorem symbol?_of_not_startsSymbol {c : Char} (h : startsSymbol c = false) :
    symbol? (c :: rest) = none := by
  -- each symbol is told by its first character
  simp only [startsSymbol, List.mem_cons, List.not_mem_nil, or_false, decide_eq_false_iff_not,
    not_or] at h
  simp [symbol?, List.findSome?, Symbol.text, h, eq_comm]

theorem tokens?_of_blank {c : Char} (h : Text.isBlank c = true) :
    tokens? (c :: rest) = tokens? rest := by
  rw [tokens?, if_pos h]

theorem tokens?_of_token? {c : Char} {cs : List Char} {t : Token} (h : Text.isBlank c = false)
    (htoken : token? (c :: cs) = some (t, rest)) :
    tokens? (c :: cs) = (tokens? rest).map (t :: ·) := by
  rw [tokens?, if_neg (by simp [h])]
  split
  · rename_i heq
    rw [htoken] at heq
    cases heq
    rfl
  · rename_i heq
    exact absurd (htoken.symm.trans heq) (by simp)

theorem tokens?_append (hword : IsWord word) (hinert : Inert word)
    (hrest : ∀ c ∈ rest.head?, Text.isBlank c = true) :
    tokens? (word ++ rest) = (tokens? rest).map (.operand ⟨word, []⟩ :: ·) := by
  have hoperand := operand?_append hword hinert hrest
  obtain ⟨c, others, rfl⟩ := List.exists_cons_of_ne_nil hword.1
  rw [List.cons_append] at hoperand ⊢
  apply tokens?_of_token? (hword.2 c List.mem_cons_self)
  rw [token?, symbol?_of_not_startsSymbol (hinert.2 c List.mem_cons_self).1, hoperand]
  rfl

theorem joined_cons_cons (first second : List Char) (words : List (List Char)) :
    joined (first :: second :: words) = first ++ ' ' :: '&' :: ' ' :: joined (second :: words) := by
  simp [joined, List.intercalate_cons_cons]

/-- The tokens of inert words with `&` between them. -/
def wordTokens : List (List Char) → List Token
  | [] => []
  | [word] => [.operand ⟨word, []⟩]
  | word :: words => .operand ⟨word, []⟩ :: .symbol .and :: wordTokens words

theorem tokens?_joined (h : ∀ word ∈ words, IsWord word ∧ Inert word) :
    tokens? (joined words) = some (wordTokens words) := by
  induction words with
  | nil => simp [joined, tokens?, wordTokens]
  | cons first words ih =>
    obtain ⟨⟨hfirst, hinert⟩, hwords⟩ := List.forall_mem_cons.mp h
    cases words with
    | nil =>
      have hread : tokens? (first ++ []) = _ := tokens?_append hfirst hinert (by simp)
      simpa [joined, wordTokens, tokens?] using hread
    | cons second words =>
      have hblank : Text.isBlank ' ' = true := by decide
      have hand : tokens? ('&' :: ' ' :: joined (second :: words)) =
          (tokens? (' ' :: joined (second :: words))).map (.symbol .and :: ·) :=
        tokens?_of_token? (by decide) rfl
      rw [joined_cons_cons, tokens?_append hfirst hinert (by simp [hblank]),
        tokens?_of_blank hblank, hand, tokens?_of_blank hblank, ih hwords]
      rfl

theorem mem_wordTokens {t : Token} :
    -- two tokens are put in front for each word but the last
    t ∈ wordTokens words → t = .symbol .and ∨ ∃ word ∈ words, t = .operand ⟨word, []⟩ := by
  induction words with
  | nil => simp [wordTokens]
  | cons first words ih =>
    cases words with
    | nil => exact fun h => .inr ⟨first, List.mem_cons_self, List.mem_singleton.mp h⟩
    | cons second words =>
      intro h
      rcases List.mem_cons.mp h with rfl | h
      · exact .inr ⟨first, List.mem_cons_self, rfl⟩
      · rcases List.mem_cons.mp h with rfl | h
        · exact .inl rfl
        · obtain hand | ⟨word, hword, rfl⟩ := ih h
          · exact .inl hand
          · exact .inr ⟨word, List.mem_cons_of_mem _ hword, rfl⟩

theorem operand_mem_wordTokens (h : word ∈ words) : .operand ⟨word, []⟩ ∈ wordTokens words := by
  induction words with
  | nil => exact absurd h List.not_mem_nil
  | cons first words ih =>
    cases words with
    | nil =>
      obtain rfl := List.mem_singleton.mp h
      exact List.mem_cons_self
    | cons second words =>
      rcases List.mem_cons.mp h with rfl | h
      · exact List.mem_cons_self
      · exact List.mem_cons_of_mem _ (List.mem_cons_of_mem _ (ih h))

theorem exists_reads_wordTokens (h : words ≠ []) :
    ∃ q, Reads .conjunction (wordTokens words) q := by
  induction words with
  | nil => exact absurd rfl h
  | cons first words ih =>
    have hfirst : Reads .phrase [.operand ⟨first, []⟩] _ := .factor (.operand _)
    cases words with
    | nil => exact ⟨_, .phrase hfirst⟩
    | cons second words =>
      obtain ⟨q, hq⟩ := ih (by simp)
      exact ⟨_, .and hfirst hq⟩

/-- A word without marks is found in the documents in which it occurs. -/
theorem places_nonempty_iff {d : Document} :
    (Operand.places ⟨word, []⟩ d).Nonempty ↔ d.Has word := by
  simp [Operand.places, Operand.Finds, Operand.weights, Document.Has, Set.Nonempty]

theorem denotes_joined (hne : words ≠ []) (h : ∀ word ∈ words, IsWord word ∧ Inert word) :
    Denotes (joined words) words := by
  have htokens := tokens?_joined h
  obtain ⟨q, hreads⟩ := exists_reads_wordTokens hne
  refine ⟨⟨q, _, htokens, .conjunction hreads⟩, ?_⟩
  rintro q' ⟨ts, hts, hreads'⟩ d
  obtain rfl : wordTokens words = ts := Option.some.inj (htokens.symm.trans hts)
  have hkinds : ∀ t ∈ wordTokens words, t = .symbol .and ∨ ∃ o, t = .operand o := by
    intro t ht
    exact (mem_wordTokens ht).imp_right fun ⟨word, _, heq⟩ => ⟨_, heq⟩
  -- whatever it is read as, all words have to be found
  rw [hreads'.holds_iff_of_conjunction hkinds d]
  constructor
  · intro hall word hword
    exact places_nonempty_iff.mp (hall _ (operand_mem_wordTokens hword))
  · intro hall o ho
    obtain ⟨word, hword, heq⟩ := (mem_wordTokens ho).resolve_left (by simp)
    obtain rfl := Token.operand.inj heq
    exact places_nonempty_iff.mpr (hall word hword)

/-! ## §2 Other words -/

/-- A document with these words, all at one place. -/
def Document.ofWords (words : List (List Char)) : Document :=
  words.map (⟨·, 0, 'D'⟩)

theorem Document.has_ofWords : (Document.ofWords words).Has word ↔ word ∈ words := by
  simp [ofWords, Has]

/-- An operand with another word does not tell whether a word is in a document in which a longer
one is. -/
theorem Operand.places_ofWords_cons {o : Operand} {longer : List Char} (hne : word ≠ o.word)
    (hlonger : longer ∈ words) (hbegins : word <+: longer) :
    o.places (Document.ofWords (word :: words)) = o.places (Document.ofWords words) := by
  have hfinds : o.Finds ⟨word, 0, 'D'⟩ → o.Finds ⟨longer, 0, 'D'⟩ := by
    rintro ⟨hfound, hweight⟩
    -- it can only have been found by an asterisk, and then the longer word is found as well
    obtain ⟨hstar, hbegins'⟩ := hfound.resolve_left hne
    exact ⟨.inr ⟨hstar, hbegins'.trans hbegins⟩, hweight⟩
  ext place
  constructor
  · rintro ⟨x, hx, hplace, hfound⟩
    rcases List.mem_cons.mp hx with rfl | hx
    · exact ⟨_, List.mem_map_of_mem hlonger, hplace, hfinds hfound⟩
    · exact ⟨x, hx, hplace, hfound⟩
  · rintro ⟨x, hx, hplace, hfound⟩
    exact ⟨x, List.mem_cons_of_mem _ hx, hplace, hfound⟩

/-- If a text asks for some words, then each of them is the word of one of its operands. -/
theorem exists_operand_of_denotes {text : List Char} (h : Denotes text words)
    (hword : word ∈ words) :
    ∃ ts o, tokens? text = some ts ∧ .operand o ∈ ts ∧ o.word = word := by
  obtain ⟨⟨q, ts, hts, hreads⟩, hmeaning⟩ := h
  by_contra hnone
  -- the document with a longer word and the others is not told apart from that with all words
  let others := (word ++ ['x']) :: words.filter (· ≠ word)
  have hplaces : ∀ o ∈ q.operands,
      o.places (Document.ofWords (word :: others)) = o.places (Document.ofWords others) := by
    intro o ho
    refine o.places_ofWords_cons (fun heq => ?_) List.mem_cons_self (List.prefix_append _ _)
    exact hnone ⟨ts, o, hts, hreads.mem_of_mem_operands o ho, heq.symm⟩
  have hiff := Search.holds_congr hplaces
  rw [hmeaning q ⟨ts, hts, hreads⟩, hmeaning q ⟨ts, hts, hreads⟩] at hiff
  have hall : ∀ w ∈ words, (Document.ofWords (word :: others)).Has w := by
    intro w hw
    apply Document.has_ofWords.mpr
    by_cases heq : w = word
    · exact heq ▸ List.mem_cons_self
    · have hmem : w ∈ words.filter (· ≠ word) := List.mem_filter.mpr ⟨hw, by simpa using heq⟩
      exact List.mem_cons_of_mem _ (List.mem_cons_of_mem _ hmem)
  have hmem := Document.has_ofWords.mp (hiff.mp hall word hword)
  simp [others] at hmem

theorem mem_words_joined (h : ∀ word ∈ words, IsWord word) :
    ∀ word ∈ Text.words (joined words), word = ['&'] ∨ word ∈ words := by
  -- no piece of the joined text is divided further, as words have no blanks
  induction words with
  | nil => simp [joined, Text.words, Text.splitWords]
  | cons first words ih =>
    obtain ⟨hfirst, hwords⟩ := List.forall_mem_cons.mp h
    cases words with
    | nil =>
      have hsingle : Text.words (first ++ []) = _ :=
        Text.words_append hfirst.2 hfirst.1 (by simp)
      rw [List.append_nil] at hsingle
      rw [joined, List.intercalate_singleton, hsingle]
      simp [Text.words, Text.splitWords]
    | cons second words =>
      have hblank : Text.isBlank ' ' = true := by decide
      have hplain : Text.isBlank '&' = false := by decide
      have hand : Text.words (['&'] ++ ' ' :: joined (second :: words)) = _ :=
        Text.words_append (by simp [hplain]) (by simp) (by simp [hblank])
      rw [joined_cons_cons, Text.words_append hfirst.2 hfirst.1 (by simp [hblank]),
        Text.words_cons_of_blank hblank]
      rw [List.singleton_append, Text.words_cons_of_blank hblank] at hand
      rw [hand]
      intro word hword
      rcases List.mem_cons.mp hword with rfl | hword
      · exact .inr List.mem_cons_self
      · rcases List.mem_cons.mp hword with rfl | hword
        · exact .inl rfl
        · exact (ih hwords word hword).imp_right (List.mem_cons_of_mem _)

theorem Spells.isBlank_eq_false {source word : List Char} (h : Spells source word)
    (hword : IsWord word) : ∀ c ∈ source, Text.isBlank c = false := by
  cases h with
  | plain => exact hword.2
  | longer _ _ hchars =>
    intro c hc
    rcases hchars c hc with hc | rfl | rfl
    · exact hword.2 c hc
    · decide
    · decide

/-- What spells a word that is not inert is longer than the word and has a sign of the language
where the sign has a meaning. -/
theorem Spells.longer_of_not_inert {source word : List Char} (h : Spells source word)
    (hinert : ¬ Inert word) :
    word.length < source.length ∧ (source.head? = some '\'' ∨ '\\' ∈ source) := by
  cases h with
  | plain hplain hquote =>
    refine absurd ⟨hquote, fun c hc => ?_⟩ hinert
    obtain ⟨hend, hslash⟩ := hplain c hc
    simp only [endsWord, Bool.or_eq_false_iff, decide_eq_false_iff_not] at hend
    exact ⟨hend.1.2, hend.2, hslash⟩
  | longer hlength hsign _ => exact ⟨hlength, hsign⟩

/-- What is written where a word may be written lies in a word of the text, and if it does not begin
this word, then a symbol stands before it. -/
theorem exists_word_of_isStart {start source : List Char} (hstart : IsStart start)
    (hplain : ∀ c ∈ source, Text.isBlank c = false) (hne : source ≠ []) (after : List Char) :
    ∃ first more, first ++ source ++ more ∈ Text.words (start ++ (source ++ after)) ∧
      (first = [] ∨ ∃ c ∈ first, startsSymbol c = true) := by
  have here (hbegin : start = [] ∨ ∃ c ∈ start.getLast?, Text.isBlank c = true) :
      ∃ more, source ++ more ∈ Text.words (start ++ (source ++ after)) :=
    Text.exists_word_of_run hplain hne hbegin after
  rcases hstart with hnil | hblank | ⟨s, before, rfl⟩
  · obtain ⟨more, hmore⟩ := here (.inl hnil)
    exact ⟨[], more, hmore, .inl rfl⟩
  · obtain ⟨more, hmore⟩ := here (.inr hblank)
    exact ⟨[], more, hmore, .inl rfl⟩
  · -- the symbol has no blank either, so that the word goes on before it
    have hrun : ∀ c ∈ s.text ++ source, Text.isBlank c = false :=
      List.forall_mem_append.mpr ⟨s.isBlank_eq_false, hplain⟩
    obtain ⟨first, more, hmore⟩ := Text.exists_word_around_run hrun (by simp [hne]) before after
    obtain ⟨c, hc, hstarts⟩ := s.exists_mem_startsSymbol
    refine ⟨first ++ s.text, more, ?_, .inr ⟨c, List.mem_append_right _ hc, hstarts⟩⟩
    simpa only [List.append_assoc] using hmore

/-- A sign that has a meaning in a source has one in the word in which the source lies, or a symbol
stands there. -/
theorem not_inert_of_sign {first source more : List Char}
    (hsign : source.head? = some '\'' ∨ '\\' ∈ source)
    (hfirst : first = [] ∨ ∃ c ∈ first, startsSymbol c = true) :
    ¬ Inert (first ++ source ++ more) := by
  rintro ⟨hquote, hsigns⟩
  rcases hfirst with rfl | ⟨c, hc, hstarts⟩
  · rcases hsign with hhead | hslash
    · exact hquote (List.mem_head?_append_of_mem_head? hhead)
    · exact (hsigns _ (List.mem_append_left _ hslash)).2.2 rfl
  · have hnone := (hsigns c (by simp [hc])).1
    exact absurd (hnone.symm.trans hstarts) (by simp)

/-- If a text of words asks for them, there is a longer word that is not inert for each one. -/
theorem exists_longer_of_denotes (hwords : ∀ word ∈ words, IsWord word)
    (h : Denotes (joined words) words) (hword : word ∈ words) (hinert : ¬ Inert word) :
    ∃ longer ∈ words, ¬ Inert longer ∧ word.length < longer.length := by
  obtain ⟨ts, o, hts, ho, rfl⟩ := exists_operand_of_denotes h hword
  have hbegin : IsStart [] ∨ IsBreak (joined words) := .inl (.inl rfl)
  obtain ⟨start, source, after, htext, hstart, hspells, hne⟩ := exists_source_of_mem hts ho hbegin
  rw [List.nil_append, List.append_assoc] at htext
  obtain ⟨hlength, hsign⟩ := hspells.longer_of_not_inert hinert
  obtain ⟨first, more, hmem, hfirst⟩ :=
    exists_word_of_isStart hstart (hspells.isBlank_eq_false (hwords _ hword)) hne after
  have hlonger : o.word.length < (first ++ source ++ more).length := by
    simp only [List.length_append]
    omega
  refine ⟨_, ?_, not_inert_of_sign hsign hfirst, hlonger⟩
  -- it is longer than one character, so that it is one of the words that were joined
  rw [← htext] at hmem
  refine (mem_words_joined hwords _ hmem).resolve_left fun hand => ?_
  have hpos := List.length_pos_iff.mpr (hwords _ hword).1
  rw [hand, List.length_singleton] at hlonger
  omega

/-- Words with `&` between them ask for these words exactly if all of them are inert. -/
theorem denotes_joined_iff (hne : words ≠ []) (hwords : ∀ word ∈ words, IsWord word) :
    Denotes (joined words) words ↔ ∀ word ∈ words, Inert word := by
  constructor
  · intro h word hword
    by_contra hinert
    -- take a longest word that is not inert
    obtain ⟨longest, ⟨hmem, hnot⟩, hmax⟩ :=
      Set.Finite.exists_maximalFor List.length {w | w ∈ words ∧ ¬ Inert w}
        (words.finite_toSet.subset fun w hw => hw.1) ⟨word, hword, hinert⟩
    obtain ⟨longer, hmem', hnot', hlt⟩ := exists_longer_of_denotes hwords h hmem hnot
    exact absurd (hmax ⟨hmem', hnot'⟩ hlt.le) (Nat.not_le.mpr hlt)
  · exact fun h => denotes_joined hne fun word hword => ⟨hwords word hword, h word hword⟩

end TextSearch

/-! ## §3 Searches of a draft -/

open TextSearch (Denotes Inert joined)

variable {d : Draft} {scope : Scope} {term text : String}

/-- A search of the rows succeeds on any draft and binds its text. -/
theorem Draft.visit_search_of_searchText? (h : Drafting.searchText? term = some text) :
    d.visit scope (.search none term) = (.ok (), { d.withValues [text] with
      condition := Drafting.combine .and d.condition
        (some (.test (.rowMatches scope.root d.params.next))) }) := by
  refine visit_eq_ok.mpr ⟨_, d.withValues [text], ?_, rfl⟩
  simp only [Drafting.condition, Drafting.search, h, Drafting.steps_bind,
    Drafting.steps_bindValue, Drafting.steps_pure]
  exact ⟨_, _, ⟨_, _, ⟨rfl, rfl⟩, rfl, rfl⟩, rfl, rfl⟩

/-- A search of a column succeeds if the column is found and not one of the expeditions. It binds
its text for the column and again for the row. -/
theorem Draft.visit_search_of_resolve {token : String} {c : Column}
    (h : Drafting.searchText? term = some text)
    (hcolumn : scope.schema.resolve scope.policy scope.root token = .ok c)
    (hsource : c.source ≠ .expedition) :
    d.visit scope (.search (some token) term) = (.ok (),
      { (d.withJoins (d.joins.requireSource c.source)).withValues [text, text] with
        condition := Drafting.combine .and d.condition
          (some (.allOf (.test (.columnMatches c.access d.params.next))
            [.test (.rowMatches c.table (d.params.next + 1))])) }) := by
  refine visit_eq_ok.mpr
    ⟨_, (d.withJoins (d.joins.requireSource c.source)).withValues [text, text], ?_, rfl⟩
  simp only [Drafting.condition, Drafting.search, h, Drafting.steps_bind, Drafting.steps_pure]
  refine ⟨_, _, ⟨c, _, Drafting.steps_resolve_of_ok hcolumn d, ?_⟩, rfl, rfl⟩
  rw [if_neg hsource]
  simp only [Drafting.steps_bind, Drafting.steps_bindValue, Drafting.steps_pure]
  exact ⟨_, _, ⟨rfl, rfl⟩, _, _, ⟨rfl, rfl⟩, by simp, by simp⟩

/-- A search for the words of a term binds one text, and the text asks for the rows with all of
these words exactly if none of them has a sign of the language of searches. -/
theorem Draft.search_denotes_words_iff (term : String) (h : Text.words term.toList ≠ []) :
    ∃ text : String,
      (∀ (scope : Scope) (d : Draft), ∃ d', d.visit scope (.search none term) = (.ok (), d') ∧
        d'.params.values = d.params.values ++ [text] ∧
        d'.condition = Drafting.combine .and d.condition
          (some (.test (.rowMatches scope.root d.params.next)))) ∧
      (∀ (scope : Scope) (d : Draft) token (c : Column),
        scope.schema.resolve scope.policy scope.root token = .ok c → c.source ≠ .expedition →
        ∃ d', d.visit scope (.search (some token) term) = (.ok (), d') ∧
          d'.params.values = d.params.values ++ [text, text] ∧
          d'.condition = Drafting.combine .and d.condition
            (some (.allOf (.test (.columnMatches c.access d.params.next))
              [.test (.rowMatches c.table (d.params.next + 1))]))) ∧
      (Denotes text.toList (Text.words term.toList) ↔
        ∀ word ∈ Text.words term.toList, Inert word) := by
  have htext := Drafting.searchText?_eq_some (words_toList term ▸ h)
  refine ⟨String.ofList (joined (termWords term)), ?_, ?_, ?_⟩
  · intro scope d
    exact ⟨_, visit_search_of_searchText? htext, rfl, rfl⟩
  · intro scope d token c hcolumn hsource
    exact ⟨_, visit_search_of_resolve htext hcolumn hsource, rfl, rfl⟩
  · rw [String.toList_ofList, ← words_toList]
    exact TextSearch.denotes_joined_iff h fun word hword => Text.of_mem_words hword

theorem Draft.search_denotes_words_iff_stations :
    (∃ text : String,
      (∀ d : Draft, ∃ d', d.visit .fieldwork (.search none "tree frog") = (.ok (), d') ∧
        d'.params.values = d.params.values ++ [text]) ∧
      Denotes text.toList (Text.words "tree frog".toList)) ∧
    ∃ text : String,
      (∀ d : Draft, ∃ d', d.visit .fieldwork (.search none "station 12:30") = (.ok (), d') ∧
        d'.params.values = d.params.values ++ [text]) ∧
      ¬ Denotes text.toList (Text.words "station 12:30".toList) := by
  constructor
  · obtain ⟨text, hvisit, -, hiff⟩ := search_denotes_words_iff "tree frog" (by decide)
    refine ⟨text, fun d => ?_, hiff.mpr (by decide)⟩
    obtain ⟨d', hok, hvalues, -⟩ := hvisit .fieldwork d
    exact ⟨d', hok, hvalues⟩
  · obtain ⟨text, hvisit, -, hiff⟩ := search_denotes_words_iff "station 12:30" (by decide)
    refine ⟨text, fun d => ?_, mt hiff.mp (by decide)⟩
    obtain ⟨d', hok, hvalues, -⟩ := hvisit .fieldwork d
    exact ⟨d', hok, hvalues⟩

end EntityQuery
