import Mathlib.Data.Set.Image
import EntityQuery.Text.Blank

/-!
# The language of text searches

What a database makes of the text of a search. Words are connected by `&`, `|`, `!` and `<->`, of
which the last one binds tighter than `&` and looser than `!`, and by parentheses. A word runs up to
the next blank, operator or colon; between single quotes it may have any characters, with the quote
itself written twice. A backslash takes the character behind it as it is. Behind a colon stand the
weights that a word may have, and an asterisk if words that begin with it are wanted too.

A search holds of a document or does not, and this depends on nothing but the places at which the
operands of the search are found (`Search.holds_congr`).
-/

namespace EntityQuery.TextSearch

/-! ## §1 Searches -/

/-- A word to be looked for, and the marks behind its colon: weights and asterisks. -/
structure Operand where
  word : List Char
  marks : List Char := []
  deriving DecidableEq, Repr

inductive Search
  | operand (o : Operand)
  | not (q : Search)
  | and (q r : Search)
  | or (q r : Search)
  /-- A match of the first search and directly behind it one of the second. -/
  | followedBy (q r : Search)
  deriving DecidableEq, Repr

/-- A word in a document, where it stands and how much weight it has. -/
structure Occurrence where
  word : List Char
  place : Nat
  weight : Char
  deriving DecidableEq, Repr

abbrev Document := List Occurrence

namespace Operand

/-- The weights that are wanted, or none if every weight is. -/
def weights (o : Operand) : List Char :=
  (o.marks.filter (· ≠ '*')).map Char.toUpper

def Finds (o : Operand) (x : Occurrence) : Prop :=
  (x.word = o.word ∨ '*' ∈ o.marks ∧ o.word <+: x.word) ∧
    (o.weights = [] ∨ x.weight ∈ o.weights)

/-- The places at which an operand is found. -/
def places (o : Operand) (d : Document) : Set Nat :=
  {place | ∃ x ∈ d, x.place = place ∧ o.Finds x}

end Operand

namespace Search

/-- The operands of a search from left to right. -/
def operands : Search → List Operand
  | operand o => [o]
  | not q => q.operands
  | and q r | or q r | followedBy q r => q.operands ++ r.operands

/-- How many places a match has before its last one. -/
def width : Search → Nat
  | operand _ => 0
  | not q => q.width
  | and q r | or q r => max q.width r.width
  | followedBy q r => q.width + 1 + r.width

/-- The places at which matches end. Two matches at one time begin at the same place. -/
def ends (d : Document) : Search → Set Nat
  | operand o => o.places d
  | not q => (q.ends d)ᶜ
  | and q r =>
    (q.ends d).image (· + (max q.width r.width - q.width)) ∩
      (r.ends d).image (· + (max q.width r.width - r.width))
  | or q r =>
    (q.ends d).image (· + (max q.width r.width - q.width)) ∪
      (r.ends d).image (· + (max q.width r.width - r.width))
  | followedBy q r => (q.ends d).image (· + (1 + r.width)) ∩ r.ends d

/-- A search holds of a document. -/
def Holds (d : Document) : Search → Prop
  | operand o => (o.places d).Nonempty
  | not q => ¬ q.Holds d
  | and q r => q.Holds d ∧ r.Holds d
  | or q r => q.Holds d ∨ r.Holds d
  | followedBy q r => ((followedBy q r).ends d).Nonempty

variable {q : Search} {d d' : Document}

theorem ends_congr (h : ∀ o ∈ q.operands, o.places d = o.places d') : q.ends d = q.ends d' := by
  -- the cases of two searches differ in how their ends are put together, and not in the argument
  induction q with
  | operand o => exact h o List.mem_cons_self
  | not q ih => rw [ends, ends, ih h]
  | and q r ihq ihr | or q r ihq ihr | followedBy q r ihq ihr =>
    obtain ⟨hq, hr⟩ := List.forall_mem_append.mp h
    rw [ends, ends, ihq hq, ihr hr]

/-- Documents in which all operands are found at the same places are told apart by no search. -/
theorem holds_congr (h : ∀ o ∈ q.operands, o.places d = o.places d') :
    q.Holds d ↔ q.Holds d' := by
  induction q with
  | operand o => rw [Holds, Holds, h o List.mem_cons_self]
  | not q ih => exact not_congr (ih h)
  | and q r ihq ihr =>
    obtain ⟨hq, hr⟩ := List.forall_mem_append.mp h
    exact and_congr (ihq hq) (ihr hr)
  | or q r ihq ihr =>
    obtain ⟨hq, hr⟩ := List.forall_mem_append.mp h
    exact or_congr (ihq hq) (ihr hr)
  -- a phrase holds where it ends, and its ends are made of the places alone
  | followedBy q r => rw [Holds, Holds, ends_congr h]

end Search

/-! ## §2 Words -/

/-- The characters that symbols begin with. -/
def startsSymbol (c : Char) : Bool :=
  c ∈ ['&', '|', '!', '(', ')', '<']

/-- The characters at which a word without quotes ends. -/
def endsWord (c : Char) : Bool :=
  Text.isBlank c || startsSymbol c || c = ':'

/-- Put a character in front of a word that was read. -/
def prepend (c : Char) (read : List Char × List Char) : List Char × List Char :=
  (c :: read.1, read.2)

/-- Read a word up to where it ends. A backslash must not be the last character. -/
def bareWord? : List Char → Option (List Char × List Char)
  | [] => some ([], [])
  | ['\\'] => none
  | '\\' :: c :: cs => (bareWord? cs).map (prepend c)
  | c :: cs => if endsWord c then some ([], c :: cs) else (bareWord? cs).map (prepend c)

/-- Read a word up to the quote that closes it. -/
def quotedWord? : List Char → Option (List Char × List Char)
  | [] | ['\\'] => none
  | '\\' :: c :: cs => (quotedWord? cs).map (prepend c)
  | '\'' :: '\'' :: cs => (quotedWord? cs).map (prepend '\'')
  | '\'' :: cs => some ([], cs)
  | c :: cs => (quotedWord? cs).map (prepend c)

def word? : List Char → Option (List Char × List Char)
  | '\'' :: cs => quotedWord? cs
  | cs => bareWord? cs

/-! ## §3 Tokens -/

inductive Symbol
  | and
  | or
  | not
  | followedBy
  | openParen
  | closeParen
  deriving DecidableEq, Repr

def Symbol.text : Symbol → List Char
  | and => ['&']
  | or => ['|']
  | not => ['!']
  | followedBy => ['<', '-', '>']
  | openParen => ['(']
  | closeParen => [')']

theorem Symbol.exists_mem_startsSymbol (s : Symbol) : ∃ c ∈ s.text, startsSymbol c = true := by
  cases s <;> simp [text, startsSymbol]

theorem Symbol.isBlank_eq_false (s : Symbol) : ∀ c ∈ s.text, Text.isBlank c = false := by
  cases s <;> simp [text, Text.isBlank, Text.blankRanges]

inductive Token
  | symbol (s : Symbol)
  | operand (o : Operand)
  deriving DecidableEq, Repr

/-- Read the symbol that a text begins with. -/
def symbol? (cs : List Char) : Option (Symbol × List Char) :=
  [Symbol.and, .or, .not, .followedBy, .openParen, .closeParen].findSome? fun s =>
    if s.text <+: cs then some (s, cs.drop s.text.length) else none

def isMark (c : Char) : Bool :=
  c ∈ ['A', 'B', 'C', 'D', 'a', 'b', 'c', 'd', '*']

/-- Read the marks behind a word, if there is a colon. -/
def marks : List Char → List Char × List Char
  | ':' :: cs => (cs.takeWhile isMark, cs.dropWhile isMark)
  | cs => ([], cs)

/-- Read an operand. Its word must not be empty, and a blank or a symbol has to follow, or
nothing. -/
def operand? (cs : List Char) : Option (Operand × List Char) :=
  (word? cs).bind fun (word, behind) =>
    let (marks, rest) := marks behind
    if word ≠ [] ∧ rest.head?.all (fun c => Text.isBlank c || startsSymbol c) then
      some (⟨word, marks⟩, rest)
    else none

/-- Read the token that a text begins with. -/
def token? (cs : List Char) : Option (Token × List Char) :=
  match symbol? cs with
  | some (s, rest) => some (.symbol s, rest)
  | none => (operand? cs).map fun (o, rest) => (.operand o, rest)

/-! ## §4 What is read is a part of the text -/

/-- How a word may be written: as it is, or in more characters, of which those that are not the
word's are quotes and backslashes. -/
inductive Spells : List Char → List Char → Prop
  | plain {word : List Char} (hplain : ∀ c ∈ word, endsWord c = false ∧ c ≠ '\\')
      (hquote : word.head? ≠ some '\'') : Spells word word
  | longer {source word : List Char} (hlength : word.length < source.length)
      (hsign : source.head? = some '\'' ∨ '\\' ∈ source)
      (hchars : ∀ c ∈ source, c ∈ word ∨ c = '\'' ∨ c = '\\') : Spells source word

variable {cs word rest : List Char}

theorem exists_of_map_prepend {c : Char} {read : Option (List Char × List Char)}
    (h : read.map (prepend c) = some (word, rest)) :
    ∃ others, read = some (others, rest) ∧ word = c :: others := by
  obtain ⟨⟨others, _⟩, hread, heq⟩ := Option.map_eq_some_iff.mp h
  cases heq
  exact ⟨others, hread, rfl⟩

/-- Characters put in front of a source are accounted for by the one put in front of the word. -/
theorem chars_append {signs source : List Char} {c : Char}
    (hsigns : ∀ x ∈ signs, x = c ∨ x = '\'' ∨ x = '\\')
    (hchars : ∀ x ∈ source, x ∈ word ∨ x = '\'' ∨ x = '\\') :
    ∀ x ∈ signs ++ source, x ∈ c :: word ∨ x = '\'' ∨ x = '\\' := by
  intro x hx
  rcases List.mem_append.mp hx with hx | hx
  · -- a sign is the character itself, or a quote or a backslash
    refine (hsigns x hx).imp_left ?_
    rintro rfl
    exact List.mem_cons_self
  · exact (hchars x hx).imp_left (List.mem_cons_of_mem _)

/-- A word without quotes is written as it is or with backslashes. -/
theorem exists_bare_source (h : bareWord? cs = some (word, rest)) :
    ∃ source, cs = source ++ rest ∧
      (source = word ∧ (∀ c ∈ word, endsWord c = false ∧ c ≠ '\\') ∨
        word.length < source.length ∧ '\\' ∈ source ∧
          ∀ c ∈ source, c ∈ word ∨ c = '\'' ∨ c = '\\') := by
  fun_induction bareWord? cs generalizing word with
  | case1 =>
    cases h
    exact ⟨[], rfl, .inl ⟨rfl, by simp⟩⟩
  | case2 => exact absurd h (by simp)
  | case3 c cs ih =>
    obtain ⟨word, hread, rfl⟩ := exists_of_map_prepend h
    obtain ⟨source, rfl, hsource⟩ := ih hread
    -- the backslash makes the source longer, whether there was one before or not
    have hlength : word.length ≤ source.length := by
      rcases hsource with ⟨rfl, -⟩ | ⟨hlength, -⟩
      · exact Nat.le_refl _
      · exact hlength.le
    have hchars : ∀ x ∈ source, x ∈ word ∨ x = '\'' ∨ x = '\\' := by
      rcases hsource with ⟨rfl, -⟩ | ⟨-, -, hchars⟩
      · exact fun x hx => .inl hx
      · exact hchars
    refine ⟨['\\', c] ++ source, rfl, .inr ⟨?_, by simp, chars_append (by simp) hchars⟩⟩
    simp only [List.length_append, List.length_cons, List.length_nil]
    omega
  | case4 c cs hslash hslash' hend =>
    cases h
    exact ⟨[], rfl, .inl ⟨rfl, by simp⟩⟩
  | case5 c cs hslash hslash' hend ih =>
    obtain ⟨word, hread, rfl⟩ := exists_of_map_prepend h
    obtain ⟨source, rfl, hsource⟩ := ih hread
    -- the cases before have taken all backslashes, with a character behind them or without
    have hc : endsWord c = false ∧ c ≠ '\\' := by
      refine ⟨by simpa using hend, fun hc => ?_⟩
      cases hrest : source ++ rest with
      | nil => exact hslash hc hrest
      | cons next others => exact hslash' next others hc hrest
    refine ⟨[c] ++ source, rfl, ?_⟩
    -- one more character on both sides keeps the source as long as the word or longer
    rcases hsource with ⟨rfl, hplain⟩ | ⟨hlength, hmem, hchars⟩
    · exact .inl ⟨rfl, List.forall_mem_cons.mpr ⟨hc, hplain⟩⟩
    · exact .inr ⟨Nat.succ_lt_succ hlength, List.mem_cons_of_mem _ hmem,
        chars_append (by simp) hchars⟩

/-- A word between quotes is written in more characters, if only for the quote that closes it. -/
theorem exists_quoted_source (h : quotedWord? cs = some (word, rest)) :
    ∃ source, cs = source ++ rest ∧ word.length < source.length ∧
      ∀ c ∈ source, c ∈ word ∨ c = '\'' ∨ c = '\\' := by
  -- each case reads at least as much as it puts into the word, and the last quote is extra
  fun_induction quotedWord? cs generalizing word with
  | case1 => exact absurd h (by simp)
  | case2 => exact absurd h (by simp)
  | case3 c cs ih =>
    obtain ⟨word, hread, rfl⟩ := exists_of_map_prepend h
    obtain ⟨source, rfl, hlength, hchars⟩ := ih hread
    exact ⟨['\\', c] ++ source, rfl, Nat.succ_lt_succ (Nat.lt_succ_of_lt hlength),
      chars_append (by simp) hchars⟩
  | case4 cs ih =>
    obtain ⟨word, hread, rfl⟩ := exists_of_map_prepend h
    obtain ⟨source, rfl, hlength, hchars⟩ := ih hread
    exact ⟨['\'', '\''] ++ source, rfl, Nat.succ_lt_succ (Nat.lt_succ_of_lt hlength),
      chars_append (by simp) hchars⟩
  | case5 cs _ =>
    cases h
    exact ⟨['\''], rfl, by simp, by simp⟩
  | case6 c cs _ _ _ _ ih =>
    obtain ⟨word, hread, rfl⟩ := exists_of_map_prepend h
    obtain ⟨source, rfl, hlength, hchars⟩ := ih hread
    exact ⟨[c] ++ source, rfl, Nat.succ_lt_succ hlength, chars_append (by simp) hchars⟩

theorem exists_word_source (h : word? cs = some (word, rest)) :
    ∃ source, cs = source ++ rest ∧ Spells source word := by
  unfold word? at h
  split at h
  · obtain ⟨source, rfl, hlength, hchars⟩ := exists_quoted_source h
    refine ⟨'\'' :: source, rfl, .longer (Nat.lt_succ_of_lt hlength) (.inl rfl) ?_⟩
    -- the opening quote comes on top of what was read behind it
    exact List.forall_mem_cons.mpr ⟨.inr (.inl rfl), hchars⟩
  · rename_i hquote
    obtain ⟨source, rfl, hsource⟩ := exists_bare_source h
    refine ⟨source, rfl, ?_⟩
    rcases hsource with ⟨rfl, hplain⟩ | ⟨hlength, hmem, hchars⟩
    · -- a bare word begins with no quote, or it would have been read as a quoted one
      refine .plain hplain fun hhead => ?_
      obtain ⟨others, rfl⟩ := List.head?_eq_some_iff.mp hhead
      exact hquote _ rfl
    · exact .longer hlength (.inr hmem) hchars

theorem exists_marks_source (cs : List Char) : ∃ source, cs = source ++ (marks cs).2 := by
  unfold marks
  split
  · rename_i cs
    exact ⟨':' :: cs.takeWhile isMark, by simp⟩
  · exact ⟨[], rfl⟩

theorem eq_of_symbol? {s : Symbol} (h : symbol? cs = some (s, rest)) : cs = s.text ++ rest := by
  obtain ⟨s', -, hs⟩ := List.exists_of_findSome?_eq_some h
  split at hs
  · rename_i hprefix
    cases hs
    exact (List.prefix_iff_eq_append.mp hprefix).symm
  · exact absurd hs (by simp)

/-- A blank or a symbol stands here, or nothing. -/
def IsBreak (cs : List Char) : Prop :=
  ∀ c ∈ cs.head?, Text.isBlank c = true ∨ startsSymbol c = true

theorem exists_operand_source {o : Operand} (h : operand? cs = some (o, rest)) :
    ∃ source behind, cs = source ++ behind ++ rest ∧ Spells source o.word ∧ source ≠ [] ∧
      IsBreak rest := by
  obtain ⟨⟨word, others⟩, hword, hread⟩ := Option.bind_eq_some_iff.mp h
  -- the word is written first, and behind it the marks
  obtain ⟨source, rfl, hspells⟩ := exists_word_source hword
  obtain ⟨behind, hbehind⟩ := exists_marks_source others
  dsimp only at hread
  split at hread
  · rename_i hrest
    cases hread
    refine ⟨source, behind, by rw [List.append_assoc, ← hbehind], hspells, ?_, ?_⟩
    · -- an empty source spells the empty word only, and that is no operand
      rintro rfl
      cases hspells with
      | plain => exact hrest.1 rfl
      | longer hlength => exact absurd hlength (by simp)
    · intro c hc
      have hall := (Option.all_eq_true _ _).mp hrest.2 c hc
      simpa using hall
  · exact absurd hread (by simp)

theorem operand?_of_endsWord {c : Char} (h : endsWord c = true) : operand? (c :: cs) = none := by
  have hquote : c ≠ '\'' := by
    rintro rfl
    exact absurd h (by decide)
  have hslash : c ≠ '\\' := by
    rintro rfl
    exact absurd h (by decide)
  -- neither a quote nor a backslash ends a word, so the word that is read here is empty
  have hword : word? (c :: cs) = some ([], c :: cs) := by
    simp [word?, bareWord?, hquote, hslash, h]
  simp [operand?, hword]

theorem length_lt_of_token? {t : Token} (h : token? cs = some (t, rest)) :
    rest.length < cs.length := by
  unfold token? at h
  split at h
  · rename_i s others hsymbol
    cases h
    -- no symbol has an empty text
    rw [eq_of_symbol? hsymbol]
    cases s <;> simp [Symbol.text]
    omega
  · obtain ⟨⟨o, others⟩, hoperand, heq⟩ := Option.map_eq_some_iff.mp h
    cases heq
    obtain ⟨source, behind, rfl, -, hne, -⟩ := exists_operand_source hoperand
    have hlength := List.length_pos_iff.mpr hne
    simp only [List.length_append]
    omega

/-- The tokens of a text, with blanks left out. -/
def tokens? : List Char → Option (List Token)
  | [] => some []
  | c :: cs =>
    if Text.isBlank c then tokens? cs
    else
      match _h : token? (c :: cs) with
      | some (t, rest) => (tokens? rest).map (t :: ·)
      | none => none
termination_by cs => cs.length
decreasing_by
  · simp
  · exact length_lt_of_token? ‹_›

/-- A word may be written from here on: a blank or a symbol stands before it, or nothing. -/
def IsStart (before : List Char) : Prop :=
  before = [] ∨ (∃ c ∈ before.getLast?, Text.isBlank c = true) ∨ ∃ s : Symbol, s.text <:+ before

/-- The word of each operand is written somewhere in the text, where a word may be written. -/
theorem exists_source_of_mem {ts : List Token} {o : Operand} (h : tokens? cs = some ts)
    (ho : .operand o ∈ ts) {before : List Char} (hbefore : IsStart before ∨ IsBreak cs) :
    ∃ start source after, before ++ cs = start ++ source ++ after ∧ IsStart start ∧
      Spells source o.word ∧ source ≠ [] := by
  -- `before` has been read; an operand ends only where no other one can begin
  fun_induction tokens? cs generalizing ts before with
  | case1 =>
    cases h
    exact absurd ho List.not_mem_nil
  | case2 c cs hblank ih =>
    have hstart : IsStart (before ++ [c]) := .inr (.inl ⟨c, by simp, hblank⟩)
    obtain ⟨start, source, after, hcs, hsource⟩ := ih h ho (.inl hstart)
    exact ⟨start, source, after, by simpa using hcs, hsource⟩
  | case3 c cs hblank t rest htoken ih =>
    obtain ⟨others, hothers, rfl⟩ := Option.map_eq_some_iff.mp h
    unfold token? at htoken
    split at htoken
    · rename_i s _ hsymbol
      cases htoken
      have hmem : .operand o ∈ others := by simpa using ho
      have hstart : IsStart (before ++ s.text) := .inr (.inr ⟨s, List.suffix_append _ _⟩)
      obtain ⟨start, source, after, hrest, hsource⟩ := ih hothers hmem (.inl hstart)
      refine ⟨start, source, after, ?_, hsource⟩
      rw [eq_of_symbol? hsymbol, ← List.append_assoc, hrest]
    · obtain ⟨⟨o', _⟩, hoperand, heq⟩ := Option.map_eq_some_iff.mp htoken
      cases heq
      obtain ⟨source, behind, hcs, hspells, hne, hbreak⟩ := exists_operand_source hoperand
      rw [hcs]
      rcases List.mem_cons.mp ho with heq | hmem
      · cases heq
        refine ⟨before, source, behind ++ rest, by simp, ?_, hspells, hne⟩
        -- no operand begins where a blank or a symbol stands
        apply hbefore.resolve_right
        intro hbreak'
        have hend : endsWord c = true := by
          rcases hbreak' c rfl with hc | hc <;> simp [endsWord, hc]
        rw [operand?_of_endsWord hend] at hoperand
        exact absurd hoperand (by simp)
      · have hbreak' : IsStart (before ++ (source ++ behind)) ∨ IsBreak rest := .inr hbreak
        obtain ⟨start, source', after, hrest, hsource⟩ := ih hothers hmem hbreak'
        exact ⟨start, source', after, by simpa using hrest, hsource⟩
  | case4 => exact absurd h (by simp)

/-! ## §5 Grammar -/

/-- How tightly the connectives of a text bind. -/
inductive Level
  /-- No connective stands outside of parentheses but `!`. -/
  | factor
  /-- Factors with `<->` between them. -/
  | phrase
  /-- Phrases with `&` between them. -/
  | conjunction
  /-- Conjunctions with `|` between them. -/
  | disjunction
  deriving DecidableEq, Repr

/-- Tokens of a level and the search that they are read as. All three connectives are associative,
and are nested to the right. -/
inductive Reads : Level → List Token → Search → Prop
  | operand (o : Operand) : Reads .factor [.operand o] (.operand o)
  | group {s q} (h : Reads .disjunction s q) :
      Reads .factor (.symbol .openParen :: (s ++ [.symbol .closeParen])) q
  | not {s q} (h : Reads .factor s q) : Reads .factor (.symbol .not :: s) (.not q)
  | factor {s q} (h : Reads .factor s q) : Reads .phrase s q
  | followedBy {s t q r} (hs : Reads .factor s q) (ht : Reads .phrase t r) :
      Reads .phrase (s ++ .symbol .followedBy :: t) (.followedBy q r)
  | phrase {s q} (h : Reads .phrase s q) : Reads .conjunction s q
  | and {s t q r} (hs : Reads .phrase s q) (ht : Reads .conjunction t r) :
      Reads .conjunction (s ++ .symbol .and :: t) (.and q r)
  | conjunction {s q} (h : Reads .conjunction s q) : Reads .disjunction s q
  | or {s t q r} (hs : Reads .conjunction s q) (ht : Reads .disjunction t r) :
      Reads .disjunction (s ++ .symbol .or :: t) (.or q r)

/-- A text is well-formed and read as a search. -/
def IsReading (text : List Char) (q : Search) : Prop :=
  ∃ tokens, tokens? text = some tokens ∧ Reads .disjunction tokens q

/-- A word occurs in a document. -/
def Document.Has (d : Document) (word : List Char) : Prop :=
  ∃ x ∈ d, x.word = word

/-- A text is well-formed, and what it is read as holds of the documents in which all of some words
occur. -/
def Denotes (text : List Char) (words : List (List Char)) : Prop :=
  (∃ q, IsReading text q) ∧
    ∀ q, IsReading text q → ∀ d : Document, q.Holds d ↔ ∀ word ∈ words, d.Has word

namespace Reads

variable {level : Level} {ts : List Token} {q : Search}

/-- The operands of a search stand in the text. -/
theorem mem_of_mem_operands (h : Reads level ts q) : ∀ o ∈ q.operands, .operand o ∈ ts := by
  -- in the tokens of a level those of its parts stand in their order
  induction h with
  | operand o => simp [Search.operands]
  | group _ ih => exact fun o ho => List.mem_cons_of_mem _ (List.mem_append_left _ (ih o ho))
  | not _ ih => exact fun o ho => List.mem_cons_of_mem _ (ih o ho)
  | factor _ ih | phrase _ ih | conjunction _ ih => exact ih
  | followedBy _ _ ihs iht | and _ _ ihs iht | or _ _ ihs iht =>
    intro o ho
    rcases List.mem_append.mp ho with ho | ho
    · exact List.mem_append_left _ (ihs o ho)
    · exact List.mem_append_right _ (List.mem_cons_of_mem _ (iht o ho))

/-- Where only `&` stands between operands, all of them have to be found. -/
theorem holds_iff_of_conjunction (h : Reads level ts q)
    (hts : ∀ t ∈ ts, t = .symbol .and ∨ ∃ o, t = .operand o) (d : Document) :
    q.Holds d ↔ ∀ o, .operand o ∈ ts → (o.places d).Nonempty := by
  induction h with
  | operand o => simp [Search.Holds]
  | group _ _ | not _ _ => simp at hts
  | factor _ ih | phrase _ ih | conjunction _ ih => exact ih hts
  -- these cases need a symbol that is not there
  | followedBy _ _ _ _ | or _ _ _ _ =>
    exact absurd (hts _ (List.mem_append_right _ List.mem_cons_self)) (by simp)
  | and hs ht ihs iht =>
    simp only [List.forall_mem_append, List.forall_mem_cons] at hts
    rw [Search.Holds, ihs hts.1, iht hts.2.2]
    simp [or_imp, forall_and]

end Reads

end EntityQuery.TextSearch
