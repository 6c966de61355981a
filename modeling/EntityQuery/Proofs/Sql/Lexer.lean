import EntityQuery.Schema.Violation
import EntityQuery.Sql.Token

/-!
# Reading the text of a statement

How PostgreSQL takes the text of a statement apart, said without regard to how the text was written.
A lexeme goes on as long as the next character can belong to it. A string ends at the first quote
that is not written twice, and a backslash is a character like any other. A colon before digits
makes a placeholder, and two colons are one symbol.

Text is refused where more than these rules decide how it is read: comments, numbers with a point,
strings with a prefix, line breaks, which can join strings, and what is not closed.

Tokens that are written one after the other are read back if each may stand after the one before
(`lex?_render`).
-/

namespace EntityQuery.Sql

/-! ## §1 Lexemes -/

/-- A piece of the text of a statement. -/
inductive Lexeme
  | word (text : String)
  | symbol (text : String)
  | number (digits : String)
  /-- A string in single quotes, as it reads without them. -/
  | string (text : String)
  /-- A name in double quotes, as it reads without them. -/
  | quotedName (text : String)
  | placeholder (digits : String)
  deriving DecidableEq, Repr

/-- What is being read, with the characters that were read of it. -/
inductive Mode
  /-- Nothing is being read. -/
  | start
  | word (read : List Char)
  | number (read : List Char)
  | placeholder (read : List Char)
  | operator (read : List Char)
  /-- A symbol that no character can be added to. -/
  | symbol (read : List Char)
  | dot
  | colon
  /-- A text in quotes is open. -/
  | quoted (quote : Char) (read : List Char)
  /-- A text in quotes was closed, unless another quote follows. -/
  | closed (quote : Char) (read : List Char)
  deriving DecidableEq, Repr

/-- A character that a word can start with. -/
def isWordStart (c : Char) : Bool :=
  c.isAlpha || c = '_' || 128 ≤ c.toNat

/-- A character that a word can have after its start. -/
def isWordPart (c : Char) : Bool :=
  isWordStart c || c.isDigit || c = '$'

/-- A character of which operators are made. -/
def isOperatorPart (c : Char) : Bool :=
  c ∈ ['+', '-', '*', '/', '<', '>', '=', '~', '!', '@', '#', '%', '^', '&', '|', '\x60', '?']

/-- A run of operator characters that is one operator: a sign at the end would be another one. -/
def isOperator (read : List Char) : Bool :=
  read.length = 1 || (read.getLast? != some '+' && read.getLast? != some '-')

namespace Mode

/-- What is read when a character is added. -/
def extend? : Mode → Char → Option Mode
  | start, _ | symbol _, _ | dot, _ => none
  | word read, c => if isWordPart c then some (word (read ++ [c])) else none
  | number read, c => if c.isDigit then some (number (read ++ [c])) else none
  | placeholder read, c => if c.isDigit then some (placeholder (read ++ [c])) else none
  | operator read, c => if isOperatorPart c then some (operator (read ++ [c])) else none
  | colon, c =>
    if c = ':' then some (symbol [':', ':'])
    else if c.isDigit then some (placeholder [c])
    else none
  | quoted quote read, c =>
    if c = quote then some (closed quote read) else some (quoted quote (read ++ [c]))
  | closed quote read, c => if c = quote then some (quoted quote (read ++ [c])) else none

/-- A character that cannot come directly after what was read: together they would be something
else. -/
def clashes : Mode → Char → Bool
  | word _, c => c = '\'' || c = '&'
  | number _, c => isWordStart c || c = '.'
  | placeholder _, c => isWordStart c
  | operator read, c =>
    (read.getLast? == some '-' && c = '-') || (read.getLast? == some '/' && c = '*')
  | dot, c => c.isDigit || c = '.'
  | _, _ => false

/-- What was read, if it is complete. -/
def finish? : Mode → Option (List Lexeme)
  | start => some []
  | word read => some [.word (.ofList read)]
  | number read => some [.number (.ofList read)]
  | placeholder read => some [.placeholder (.ofList read)]
  | operator read => if isOperator read then some [.symbol (.ofList read)] else none
  | symbol read => some [.symbol (.ofList read)]
  | dot => some [.symbol "."]
  | colon | quoted _ _ => none
  | closed quote read =>
    if quote = '\'' then some [.string (.ofList read)]
    else if read.isEmpty then none
    else some [.quotedName (.ofList read)]

/-- What starts with a character. -/
def begin? (c : Char) : Option Mode :=
  if c = ' ' then some start
  else if c ∈ ['(', ')', '[', ']', ',', ';'] then some (symbol [c])
  else if c = '.' then some dot
  else if c = ':' then some colon
  else if c = '\'' || c = '"' then some (quoted c [])
  else if isWordStart c then some (word [c])
  else if c.isDigit then some (number [c])
  else if isOperatorPart c then some (operator [c])
  else none

/-- Read a text when something was read before. -/
def lex? : Mode → List Char → Option (List Lexeme)
  | m, [] => m.finish?
  | m, c :: cs =>
    if m.clashes c then none
    else
      match m.extend? c with
      | some m' => lex? m' cs
      | none =>
        match m.finish?, begin? c with
        | some done, some m' => (lex? m' cs).map (done ++ ·)
        | _, _ => none

end Mode

/-- Take the text of a statement apart. -/
def lex? (text : String) : Option (List Lexeme) :=
  Mode.start.lex? text.toList

/-! ## §2 Single steps -/

namespace Mode

variable {m : Mode} {c : Char} {cs : List Char}

theorem lex?_extend {m' : Mode} (hclash : m.clashes c = false) (h : m.extend? c = some m') :
    m.lex? (c :: cs) = m'.lex? cs := by
  rw [lex?, hclash, h]
  rfl

theorem lex?_start {m' : Mode} (h : begin? c = some m') : start.lex? (c :: cs) = m'.lex? cs := by
  -- what was finished before is the empty list
  have hid : ∀ o : Option (List Lexeme), o.map ([] ++ ·) = o := by
    intro o
    cases o <;> rfl
  rw [lex?, h]
  exact hid _

/-- A character that cannot belong to what was read begins something else. -/
def EndsBefore (m : Mode) (c : Char) : Prop :=
  m.clashes c = false ∧ m.extend? c = none

theorem lex?_of_endsBefore {done : List Lexeme} (h : m.EndsBefore c)
    (hdone : m.finish? = some done) :
    m.lex? (c :: cs) = (start.lex? (c :: cs)).map (done ++ ·) := by
  obtain ⟨hclash, hextend⟩ := h
  -- from the start a character is read as what it begins
  have hstart : start.lex? (c :: cs) = (begin? c).bind (·.lex? cs) := by
    cases hbegin : begin? c with
    | none =>
      rw [lex?, hbegin]
      rfl
    | some m' => exact lex?_start hbegin
  rw [hstart, lex?, hclash, hextend, hdone]
  cases begin? c <;> rfl

/-! ## §3 Runs of characters -/

variable {read rest : List Char}

theorem lex?_identifierParts (h : ∀ c ∈ cs, isIdentifierPart c) :
    (word read).lex? (cs ++ rest) = (word (read ++ cs)).lex? rest := by
  -- on the characters; what was read grows by each of them
  induction cs generalizing read with
  | nil => rw [List.nil_append, List.append_nil]
  | cons c cs ih =>
    have hc : isIdentifierPart c := h c List.mem_cons_self
    -- a word runs into quotes and ampersands only, and neither is part of an identifier
    have hclash : (word read).clashes c = false := by
      have hquote : c ≠ '\'' := by rintro rfl; exact absurd hc (by decide)
      have hand : c ≠ '&' := by rintro rfl; exact absurd hc (by decide)
      simp [clashes, hquote, hand]
    have hextend : (word read).extend? c = some (word (read ++ [c])) := by
      have hpart : isWordPart c := by
        simp only [isIdentifierPart, Char.isAlphanum, isWordPart, isWordStart,
          Bool.or_eq_true] at hc ⊢
        rcases hc with (halpha | hdigit) | hunderscore
        · exact .inl (.inl (.inl (.inl halpha)))
        · exact .inl (.inr hdigit)
        · exact .inl (.inl (.inl (.inr hunderscore)))
      rw [extend?, if_pos hpart]
    rw [List.cons_append, lex?_extend hclash hextend,
      ih fun c' hc' => h c' (List.mem_cons_of_mem _ hc'), List.append_assoc]
    rfl

theorem isWordStart_of_isDigit (h : c.isDigit) : isWordStart c = false := by
  have hbounds : 48 ≤ c.toNat ∧ c.toNat ≤ 57 := by
    -- the digits lie below all letters
    simpa [Char.isDigit, UInt32.le_iff_toNat_le] using h
  have halpha : c.isAlpha = false := by
    have hnotA : ¬ 65 ≤ c.val := by
      rw [UInt32.le_iff_toNat_le, Char.toNat_val]
      exact Nat.not_le_of_lt (Nat.lt_of_le_of_lt hbounds.2 (by decide))
    have hnota : ¬ 97 ≤ c.val := by
      rw [UInt32.le_iff_toNat_le, Char.toNat_val]
      exact Nat.not_le_of_lt (Nat.lt_of_le_of_lt hbounds.2 (by decide))
    have hupper : c.isUpper = false := decide_eq_false fun h => hnotA h.1
    have hlower : c.isLower = false := by
      show (decide (97 ≤ c.val) && _) = false
      rw [decide_eq_false hnota, Bool.false_and]
    show (c.isUpper || c.isLower) = false
    rw [hupper, hlower]
    rfl
  have hunderscore : c ≠ '_' := by rintro rfl; exact absurd h (by decide)
  have hhigh : ¬ 128 ≤ c.toNat := by omega
  simp [isWordStart, halpha, hunderscore, hhigh]

theorem isWordStart_of_identifierStart (h : isIdentifierStart c) : isWordStart c := by
  simp only [isIdentifierStart, Bool.or_eq_true] at h
  simp only [isWordStart, Bool.or_eq_true]
  exact .inl h

/-- The characters that begin something other than a word, a number or an operator. -/
def delimiters : List Char :=
  [' ', '(', ')', '[', ']', ',', ';', '.', ':', '\'', '"']

theorem begin?_of_not_mem_delimiters (h : c ∉ delimiters) :
    begin? c =
      if isWordStart c then some (word [c])
      else if c.isDigit then some (number [c])
      else if isOperatorPart c then some (operator [c])
      else none := by
  simp only [delimiters, List.mem_cons, List.not_mem_nil, or_false, not_or] at h
  simp [begin?, h]

theorem begin?_identifierStart (h : isIdentifierStart c) : begin? c = some (word [c]) := by
  -- none of the delimiters can start an identifier
  have hdelimiters : delimiters.all (!isIdentifierStart ·) := rfl
  have hc : c ∉ delimiters := by
    intro hmem
    simpa [h] using List.all_eq_true.mp hdelimiters c hmem
  rw [begin?_of_not_mem_delimiters hc, if_pos (isWordStart_of_identifierStart h)]

theorem exists_identifierStart {s : String} (h : isIdentifier s) :
    ∃ c cs, s.toList = c :: cs ∧ isIdentifierStart c ∧ ∀ c ∈ cs, isIdentifierPart c := by
  unfold isIdentifier at h
  cases hs : s.toList with
  | nil => simp [hs] at h
  | cons c cs =>
    rw [hs] at h
    simp only [Bool.and_eq_true, List.all_eq_true] at h
    exact ⟨c, cs, rfl, h⟩

theorem lex?_identifier {s : String} (h : isIdentifier s) :
    start.lex? (s.toList ++ rest) = (word s.toList).lex? rest := by
  obtain ⟨c, cs, hs, hstart, hparts⟩ := exists_identifierStart h
  rw [hs, List.cons_append, lex?_start (begin?_identifierStart hstart),
    lex?_identifierParts hparts]
  rfl

theorem dot_endsBefore (h : isIdentifierStart c) : dot.EndsBefore c := by
  -- a dot runs into digits and dots, and an identifier starts with neither
  have hdigit : c.isDigit = false := by
    rw [Bool.eq_false_iff]
    intro hdigit
    have hstart := isWordStart_of_identifierStart h
    rw [isWordStart_of_isDigit hdigit] at hstart
    exact absurd hstart (by decide)
  have hdot : c ≠ '.' := by rintro rfl; exact absurd h (by decide)
  exact ⟨by simp [clashes, hdigit, hdot], rfl⟩

/-- Digits are added to a number and to a placeholder. -/
theorem lex?_digits {kind : List Char → Mode} (h : ∀ c ∈ cs, c.isDigit)
    (hclash : ∀ r c, c.isDigit → (kind r).clashes c = false)
    (hextend : ∀ r c, c.isDigit → (kind r).extend? c = some (kind (r ++ [c]))) :
    (kind read).lex? (cs ++ rest) = (kind (read ++ cs)).lex? rest := by
  -- numbers and placeholders go on in the same way
  induction cs generalizing read with
  | nil => rw [List.nil_append, List.append_nil]
  | cons c cs ih =>
    have hc : c.isDigit := h c List.mem_cons_self
    have hcs : ∀ c' ∈ cs, c'.isDigit := fun c' hc' => h c' (List.mem_cons_of_mem _ hc')
    rw [List.cons_append, lex?_extend (hclash read c hc) (hextend read c hc), ih hcs,
      List.append_assoc]
    rfl

theorem begin?_digit (h : c.isDigit) : begin? c = some (number [c]) := by
  have hdelimiters : delimiters.all (!·.isDigit) := rfl
  have hc : c ∉ delimiters := by
    intro hmem
    simpa [h] using List.all_eq_true.mp hdelimiters c hmem
  rw [begin?_of_not_mem_delimiters hc, isWordStart_of_isDigit h, if_neg (by simp), if_pos h]

theorem exists_digits (n : Nat) :
    ∃ d ds, (toString n).toList = d :: ds ∧ ∀ c ∈ d :: ds, c.isDigit := by
  have hdigits : ∀ c ∈ (toString n).toList, c.isDigit := by
    intro c hc
    rw [Nat.toString_eq_repr, Nat.toList_repr] at hc
    exact Nat.isDigit_of_mem_toDigits (by decide) (by decide) hc
  cases hn : (toString n).toList with
  | nil =>
    rw [Nat.toString_eq_repr, Nat.toList_repr] at hn
    exact absurd hn Nat.toDigits_ne_nil
  | cons d ds => exact ⟨d, ds, rfl, hn ▸ hdigits⟩

theorem lex?_number (n : Nat) :
    start.lex? ((toString n).toList ++ rest) = (number (toString n).toList).lex? rest := by
  obtain ⟨d, ds, hn, hdigits⟩ := exists_digits n
  have hd : d.isDigit := hdigits d List.mem_cons_self
  have hds : ∀ c ∈ ds, c.isDigit := fun c hc => hdigits c (List.mem_cons_of_mem _ hc)
  -- the first digit begins the number, and the others are added to it
  rw [hn, List.cons_append, lex?_start (begin?_digit hd), lex?_digits hds]
  · rfl
  · intro r c hc
    have hdot : c ≠ '.' := by rintro rfl; exact absurd hc (by decide)
    simp [clashes, isWordStart_of_isDigit hc, hdot]
  · intro r c hc
    exact if_pos hc

theorem lex?_placeholder (n : Nat) :
    start.lex? (':' :: ((toString n).toList ++ rest)) =
      (placeholder (toString n).toList).lex? rest := by
  obtain ⟨d, ds, hn, hdigits⟩ := exists_digits n
  have hd : d.isDigit := hdigits d List.mem_cons_self
  have hds : ∀ c ∈ ds, c.isDigit := fun c hc => hdigits c (List.mem_cons_of_mem _ hc)
  -- behind the colon the first digit makes a placeholder, and not a cast
  have hcolon : colon.extend? d = some (placeholder [d]) := by
    have hne : d ≠ ':' := by rintro rfl; exact absurd hd (by decide)
    simp [extend?, hne, hd]
  rw [hn, lex?_start rfl, List.cons_append, lex?_extend rfl hcolon, lex?_digits hds]
  · rfl
  · intro r c hc
    exact isWordStart_of_isDigit hc
  · intro r c hc
    exact if_pos hc

/-- A text in quotes is read back, whatever characters it has. -/
theorem lex?_quoted {quote : Char} (s : List Char) :
    (quoted quote read).lex?
        ((s.flatMap fun c => if c = quote then [c, c] else [c]) ++ quote :: rest) =
      (closed quote (read ++ s)).lex? rest := by
  -- on the text between the quotes; what was read grows by each character
  induction s generalizing read with
  | nil =>
    rw [List.flatMap_nil, List.nil_append, List.append_nil]
    exact lex?_extend rfl (if_pos rfl)
  | cons c s ih =>
    have happend : read ++ c :: s = read ++ [c] ++ s := by simp
    rw [List.flatMap_cons, List.append_assoc, happend, ← ih]
    by_cases hc : c = quote
    · -- the first quote closes the text and the second one opens it again
      subst hc
      have hclose : (quoted c read).extend? c = some (closed c read) := if_pos rfl
      have hopen : (closed c read).extend? c = some (quoted c (read ++ [c])) := if_pos rfl
      rw [if_pos rfl, List.cons_append, List.cons_append, List.nil_append,
        lex?_extend rfl hclose, lex?_extend rfl hopen]
    · rw [if_neg hc, List.cons_append, List.nil_append]
      exact lex?_extend rfl (if_neg hc)

theorem lex?_quotedText {quote : Char} {s : String}
    (h : begin? quote = some (quoted quote [])) :
    start.lex? ((Sql.quoted quote s).toList ++ rest) = (closed quote s.toList).lex? rest := by
  rw [Sql.quoted, String.toList_ofList, List.cons_append, List.cons_append, List.append_assoc,
    lex?_start h]
  exact lex?_quoted s.toList

end Mode

/-! ## §4 Tokens -/

namespace Token

/-- A token whose text is made of the right characters. -/
def Spelled : Token → Prop
  | name s | function s | typeName s => isIdentifier s
  | qualified none s => isIdentifier s
  | qualified (some schema) s => isIdentifier schema ∧ isIdentifier s
  | label s => s ≠ ""
  | keyword _ | symbol _ | space | literal _ | number _ | placeholder _ => True

/-- What a token is read as. -/
def lexemes : Token → List Lexeme
  | keyword .ORDER_BY => [.word "ORDER", .word "BY"]
  | keyword k => [.word k.text]
  | symbol s => [.symbol s.text]
  | space => []
  | name s | function s | typeName s | qualified none s => [.word s]
  | qualified (some schema) s => [.word schema, .symbol ".", .word s]
  | label s => [.quotedName s]
  | literal s => [.string s]
  | number n => [.number (toString n)]
  | placeholder n => [.placeholder (toString n)]

/-- What is being read at the end of a token. -/
def lastMode : Token → Mode
  | keyword .ORDER_BY => .word ['B', 'Y']
  | keyword k => .word k.text.toList
  | symbol .dot => .dot
  | symbol .comma => .symbol [',']
  | symbol .openParen => .symbol ['(']
  | symbol .closeParen => .symbol [')']
  | symbol .openBracket => .symbol ['[']
  | symbol .closeBracket => .symbol [']']
  | symbol .cast => .symbol [':', ':']
  | symbol s => .operator s.text.toList
  | space => .start
  | name s | function s | typeName s | qualified _ s => .word s.toList
  | label s => .closed '"' s.toList
  | literal s => .closed '\'' s.toList
  | number n => .number (toString n).toList
  | placeholder n => .placeholder (toString n).toList

/-- A token is read from its text: its end is still open to what follows. -/
structure IsReadAs (t : Token) (done pending : List Lexeme) : Prop where
  read : ∀ rest, Mode.start.lex? (t.text.toList ++ rest) =
    (t.lastMode.lex? rest).map (done ++ ·)
  finish : t.lastMode.finish? = some pending
  lexemes : t.lexemes = done ++ pending

private theorem map_nil_append (o : Option (List Lexeme)) : o.map ([] ++ ·) = o := by
  cases o <;> rfl

theorem isReadAs_keyword (k : Keyword) :
    ∃ done pending, (keyword k).IsReadAs done pending := by
  by_cases horder : k = .ORDER_BY
  · -- two words with a blank between them
    subst horder
    refine ⟨[.word "ORDER"], [.word "BY"], fun rest => ?_, rfl, rfl⟩
    have hread : Mode.start.lex? ("ORDER BY".toList ++ rest) =
        ((((Mode.word ['B', 'Y']).lex? rest).map ([] ++ ·)).map ([.word "ORDER"] ++ ·)).map
          ([] ++ ·) := rfl
    rw [map_nil_append, map_nil_append] at hread
    exact hread
  · -- every other keyword is a single word
    have hidentifier : isIdentifier k.text := by
      cases k <;> first | rfl | exact absurd rfl horder
    have hlast : (keyword k).lastMode = .word k.text.toList := by
      cases k <;> first | rfl | exact absurd rfl horder
    have hlexemes : (keyword k).lexemes = [.word k.text] := by
      cases k <;> first | rfl | exact absurd rfl horder
    refine ⟨[], [.word k.text], fun rest => ?_, ?_, hlexemes⟩
    · rw [map_nil_append, hlast]
      exact Mode.lex?_identifier hidentifier
    · simp [hlast, Mode.finish?]

theorem isReadAs_qualified {schema : Option String} {s : String}
    (h : (qualified schema s).Spelled) :
    ∃ done pending, (qualified schema s).IsReadAs done pending := by
  cases schema with
  | none =>
    refine ⟨[], [.word s], fun rest => ?_, by simp [lastMode, Mode.finish?], rfl⟩
    rw [map_nil_append]
    exact Mode.lex?_identifier h
  | some schema =>
    refine ⟨[.word schema, .symbol "."], [.word s], fun rest => ?_,
      by simp [lastMode, Mode.finish?], rfl⟩
    obtain ⟨c, cs, hcs, hstart, -⟩ := Mode.exists_identifierStart h.2
    have hword : (Mode.word schema.toList).finish? = some [.word schema] := by
      simp [Mode.finish?]
    -- the dot ends the first word, and the second word ends the dot
    have hsecond : Mode.dot.lex? (s.toList ++ rest) =
        ((Mode.word s.toList).lex? rest).map ([.symbol "."] ++ ·) := by
      rw [← Mode.lex?_identifier h.2, hcs, List.cons_append]
      exact Mode.lex?_of_endsBefore (Mode.dot_endsBefore hstart) rfl
    have hdot : Mode.start.lex? ('.' :: (s.toList ++ rest)) = Mode.dot.lex? (s.toList ++ rest) :=
      Mode.lex?_start rfl
    have htext : (qualified (some schema) s).text.toList ++ rest =
        schema.toList ++ '.' :: (s.toList ++ rest) := by
      simp [text]
    rw [htext, Mode.lex?_identifier h.1, Mode.lex?_of_endsBefore ⟨rfl, rfl⟩ hword, hdot, hsecond,
      Option.map_map]
    rfl

theorem exists_isReadAs {t : Token} (h : t.Spelled) :
    ∃ done pending, t.IsReadAs done pending := by
  cases t with
  | keyword k => exact isReadAs_keyword k
  | symbol s =>
    refine ⟨[], [.symbol s.text], fun rest => ?_, ?_, rfl⟩
    · cases s <;> rfl
    · cases s <;> rfl
  | space => exact ⟨[], [], fun rest => rfl, rfl, rfl⟩
  | name s | function s | typeName s =>
    -- behind such a token everything is read as its word until the word ends
    refine ⟨[], [.word s], fun rest => ?_, by simp [lastMode, Mode.finish?], rfl⟩
    rw [map_nil_append]
    exact Mode.lex?_identifier h
  | qualified schema s => exact isReadAs_qualified h
  | label s =>
    -- a label without characters would not be a name
    have hne : s.toList ≠ [] := fun hnil => h (String.toList_eq_nil_iff.mp hnil)
    refine ⟨[], [.quotedName s], fun rest => ?_, by simp [lastMode, Mode.finish?, hne], rfl⟩
    rw [map_nil_append]
    exact Mode.lex?_quotedText rfl
  -- a string may be empty, and is read back all the same
  | literal s =>
    refine ⟨[], [.string s], fun rest => ?_, by simp [lastMode, Mode.finish?], rfl⟩
    rw [map_nil_append]
    exact Mode.lex?_quotedText rfl
  | number n =>
    refine ⟨[], [.number (toString n)], fun rest => ?_, ?_, rfl⟩
    · rw [map_nil_append]
      exact Mode.lex?_number n
    · rw [lastMode, Mode.finish?, String.ofList_toList]
  | placeholder n =>
    refine ⟨[], [.placeholder (toString n)], fun rest => ?_, ?_, rfl⟩
    · rw [map_nil_append, text, String.toList_append]
      exact Mode.lex?_placeholder n
    · rw [lastMode, Mode.finish?, String.ofList_toList]

/-! ## §5 Tokens one after the other -/

/-- A blank, a comma, a parenthesis or a bracket, which never runs into its neighbours. -/
def isBreak : Token → Bool
  | space | symbol .comma | symbol .openParen | symbol .closeParen | symbol .openBracket
  | symbol .closeBracket => true
  | _ => false

/-- A token that may stand directly after another one. -/
def mayFollow : Token → Token → Bool
  | name _, symbol .dot | symbol .dot, name _ => true
  | name _, symbol .jsonText | symbol .jsonText, literal _ => true
  | placeholder _, symbol .cast | symbol .cast, typeName _ => true
  | t, u => t.isBreak || u.isBreak

/-- Tokens that can be written after a token and be told apart. -/
def LegibleAfter : Token → List Token → Prop
  | _, [] => True
  | t, u :: us => u.Spelled ∧ t.mayFollow u ∧ LegibleAfter u us

theorem exists_quoted_eq_cons (quote : Char) (s : String) :
    ∃ cs, (quoted quote s).toList = quote :: cs :=
  ⟨_, by rw [quoted, String.toList_ofList, List.cons_append]⟩

theorem Spelled.exists_text_eq_cons {t : Token} (h : t.Spelled) :
    ∃ c cs, t.text.toList = c :: cs := by
  -- an identifier has a first character
  have hidentifier : ∀ {s : String}, isIdentifier s → ∃ c cs, s.toList = c :: cs := by
    intro s hs
    obtain ⟨c, cs, hc, -⟩ := Mode.exists_identifierStart hs
    exact ⟨c, cs, hc⟩
  cases t with
  | keyword k => cases k <;> exact ⟨_, _, rfl⟩
  | symbol s => cases s <;> exact ⟨_, _, rfl⟩
  | space => exact ⟨' ', [], rfl⟩
  | name s | function s | typeName s => exact hidentifier h
  | qualified schema s =>
    cases schema with
    | none => exact hidentifier h
    | some schema =>
      obtain ⟨c, cs, hc⟩ := hidentifier h.1
      exact ⟨c, _, by rw [text, String.toList_append, String.toList_append, hc]; rfl⟩
  | label s => exact ⟨'"', exists_quoted_eq_cons '"' s⟩
  | literal s => exact ⟨'\'', exists_quoted_eq_cons '\'' s⟩
  | number n =>
    obtain ⟨d, ds, hn, -⟩ := Mode.exists_digits n
    exact ⟨d, ds, hn⟩
  | placeholder n => exact ⟨':', _, by rw [text, String.toList_append]; rfl⟩

theorem exists_endsBefore_of_isBreak (t : Token) {u : Token} (hu : u.isBreak) :
    ∃ c cs, u.text.toList = c :: cs ∧ t.lastMode.EndsBefore c := by
  -- a break is a single character
  have hbreak : ∃ c ∈ [' ', ',', '(', ')', '[', ']'], u.text.toList = [c] := by
    unfold isBreak at hu
    split at hu
    · exact ⟨' ', by simp, rfl⟩
    · exact ⟨',', by simp, rfl⟩
    · exact ⟨'(', by simp, rfl⟩
    · exact ⟨')', by simp, rfl⟩
    · exact ⟨'[', by simp, rfl⟩
    · exact ⟨']', by simp, rfl⟩
    · exact absurd hu (by decide)
  obtain ⟨c, hc, htext⟩ := hbreak
  refine ⟨c, [], htext, ?_⟩
  simp only [List.mem_cons, List.not_mem_nil, or_false] at hc
  -- none of these six characters goes on with what any token ends in
  rcases hc with rfl | rfl | rfl | rfl | rfl | rfl
  all_goals
    cases t with
    | keyword k => cases k <;> exact ⟨rfl, rfl⟩
    | symbol s => cases s <;> exact ⟨rfl, rfl⟩
    | _ => exact ⟨rfl, rfl⟩

theorem isBreak_endsBefore {t : Token} (ht : t.isBreak) (c : Char) :
    t.lastMode.EndsBefore c := by
  unfold isBreak at ht
  split at ht
  all_goals first | exact ⟨rfl, rfl⟩ | exact absurd ht (by decide)

theorem endsBefore_of_mayFollow {t u : Token} (h : t.mayFollow u) (hu : u.Spelled) :
    ∃ c cs, u.text.toList = c :: cs ∧ t.lastMode.EndsBefore c := by
  unfold mayFollow at h
  split at h
  -- the pairs without a break between them, and then all others
  · exact ⟨'.', [], rfl, rfl, rfl⟩
  · obtain ⟨c, cs, hc, hstart, -⟩ := Mode.exists_identifierStart hu
    exact ⟨c, cs, hc, Mode.dot_endsBefore hstart⟩
  · exact ⟨'-', ['>', '>'], rfl, rfl, rfl⟩
  · obtain ⟨cs, hcs⟩ := exists_quoted_eq_cons '\'' _
    exact ⟨'\'', cs, hcs, rfl, rfl⟩
  · exact ⟨':', [':'], rfl, rfl, rfl⟩
  · obtain ⟨c, cs, hc⟩ := hu.exists_text_eq_cons
    exact ⟨c, cs, hc, rfl, rfl⟩
  · rw [Bool.or_eq_true] at h
    rcases h with ht | hbreak
    · obtain ⟨c, cs, hc⟩ := hu.exists_text_eq_cons
      exact ⟨c, cs, hc, isBreak_endsBefore ht c⟩
    · exact exists_endsBefore_of_isBreak t hbreak

theorem lex?_of_legibleAfter {t : Token} {us : List Token} {pending : List Lexeme}
    (hpending : t.lastMode.finish? = some pending) (h : LegibleAfter t us) :
    t.lastMode.lex? (us.flatMap (·.text.toList)) = some (pending ++ us.flatMap lexemes) := by
  induction us generalizing t pending with
  | nil => simpa [Mode.lex?] using hpending
  -- the first character of the next token ends the one before, and the next one is read in turn
  | cons u us ih =>
    obtain ⟨hu, hfollows, hus⟩ := h
    obtain ⟨c, cs, hc, hends⟩ := endsBefore_of_mayFollow hfollows hu
    obtain ⟨done, pending', hread⟩ := exists_isReadAs hu
    have hsplit : (u :: us).flatMap (·.text.toList) = u.text.toList ++ us.flatMap (·.text.toList) :=
      List.flatMap_cons
    rw [hsplit, hc, List.cons_append, Mode.lex?_of_endsBefore hends hpending, ← List.cons_append,
      ← hc, hread.read, ih hread.finish hus]
    simp [hread.lexemes]

end Token

/-- Tokens that can be written one after the other and be told apart. -/
def Legible (tokens : List Token) : Prop :=
  Token.space.LegibleAfter tokens

/-- The text of legible tokens is read back as these tokens. -/
theorem lex?_render {tokens : List Token} (h : Legible tokens) :
    lex? (render tokens) = some (tokens.flatMap Token.lexemes) := by
  have htext : (render tokens).toList = tokens.flatMap (·.text.toList) := by
    simp [render, String.toList_join, List.flatMap_map]
  rw [lex?, htext]
  exact Token.lex?_of_legibleAfter rfl h

end EntityQuery.Sql
