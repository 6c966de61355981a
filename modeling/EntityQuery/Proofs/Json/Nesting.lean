import EntityQuery.Proofs.Json.Reading

/-!
# How deeply a document nests

How many arrays and objects are open at once can be seen from the characters of a document: brackets
count, unless they stand in a text. For what is written from a value it is the depth of the value
(`Exact.nesting_compact`).
-/

namespace EntityQuery.Json

/-! ## §1 Open brackets -/

/-- Where in a document a character stands. -/
inductive Place
  | outside
  | text
  /-- Behind a backslash of a text. -/
  | escape

/-- The most brackets that are open at once, if some are open at the start. -/
def openBrackets : Place → Nat → List Char → Nat
  | _, n, [] => n
  | .escape, n, _ :: cs => openBrackets .text n cs
  | .text, n, c :: cs =>
    if c = '\\' then openBrackets .escape n cs
    else if c = '"' then openBrackets .outside n cs
    else openBrackets .text n cs
  | .outside, n, c :: cs =>
    if c = '"' then openBrackets .text n cs
    else if c = '[' ∨ c = '\x7b' then openBrackets .outside (n + 1) cs
    else if c = ']' ∨ c = '\x7d' then max n (openBrackets .outside (n - 1) cs)
    else openBrackets .outside n cs

/-- How many arrays and objects of a document are nested in each other, at most. -/
def nesting (document : String) : Nat :=
  openBrackets .outside 0 document.toList

theorem le_openBrackets (place : Place) (n : Nat) (cs : List Char) :
    n ≤ openBrackets place n cs := by
  induction cs generalizing place n with
  | nil => cases place <;> exact Nat.le_refl n
  | cons c cs ih =>
    cases place with
    | escape => exact ih .text n
    | text =>
      rw [openBrackets]
      split_ifs
      · exact ih .escape n
      · exact ih .outside n
      · exact ih .text n
    | outside =>
      rw [openBrackets]
      split_ifs
      · exact ih .text n
      · exact Nat.le_of_succ_le (ih .outside (n + 1))
      · exact Nat.le_max_left _ _
      · exact ih .outside n

/-! ## §2 Texts -/

theorem openBrackets_text_cons {c : Char} (hquote : c ≠ '"') (hbackslash : c ≠ '\\') (n : Nat)
    (cs : List Char) : openBrackets .text n (c :: cs) = openBrackets .text n cs := by
  rw [openBrackets, if_neg hbackslash, if_neg hquote]

theorem openBrackets_hexDigit (n m : Nat) (cs : List Char) :
    openBrackets .text n (hexDigit m :: cs) = openBrackets .text n cs :=
  openBrackets_text_cons (Nat.digitChar_ne _ (by decide)) (Nat.digitChar_ne _ (by decide)) n cs

/-- A character of a text does not end it, whichever way it is written. -/
theorem openBrackets_escape (n : Nat) (c : Char) (cs : List Char) :
    openBrackets .text n (escape c ++ cs) = openBrackets .text n cs := by
  have hletter : ∀ e, openBrackets .text n ('\\' :: e :: cs) = openBrackets .text n cs :=
    fun e => rfl
  unfold escape
  -- what follows a backslash is passed over, be it a quote or another backslash
  split_ifs with hquote hbackslash
  · exact hletter '"'
  · exact hletter '\\'
  · exact hletter 'b'
  · exact hletter 'f'
  · exact hletter 'n'
  · exact hletter 'r'
  · exact hletter 't'
  · show openBrackets .text n (hexDigit _ :: hexDigit _ :: cs) = _
    rw [openBrackets_hexDigit, openBrackets_hexDigit]
  · exact openBrackets_text_cons hquote hbackslash n cs

/-- A text opens no brackets. -/
theorem openBrackets_quote (n : Nat) (s : String) (rest : List Char) :
    openBrackets .outside n (quote s ++ rest) = openBrackets .outside n rest := by
  have htext : ∀ cs : List Char, openBrackets .text n (cs.flatMap escape ++ '"' :: rest) =
      openBrackets .outside n rest := by
    intro cs
    induction cs with
    | nil => rfl
    | cons c cs ih => rw [List.flatMap_cons, List.append_assoc, openBrackets_escape, ih]
  rw [quote, List.cons_append, List.cons_append, List.append_assoc]
  exact htext s.toList

/-! ## §3 Values -/

theorem openBrackets_number {cs : List Char} (h : ∀ c ∈ cs, c = '-' ∨ c.isDigit) (n : Nat)
    (rest : List Char) :
    openBrackets .outside n (cs ++ rest) = openBrackets .outside n rest := by
  induction cs with
  | nil => rfl
  | cons c cs ih =>
    have hc := h c List.mem_cons_self
    have hquote := ne_of_startsNumber hc '"' (by decide)
    have hbracket := ne_of_startsNumber hc '[' (by decide)
    have hbrace := ne_of_startsNumber hc '\x7b' (by decide)
    have hbracket' := ne_of_startsNumber hc ']' (by decide)
    have hbrace' := ne_of_startsNumber hc '\x7d' (by decide)
    rw [List.cons_append, openBrackets, if_neg hquote, if_neg (not_or.mpr ⟨hbracket, hbrace⟩),
      if_neg (not_or.mpr ⟨hbracket', hbrace'⟩)]
    exact ih fun c hc => h c (List.mem_cons_of_mem _ hc)

section Commas

variable {α : Type}

/-- The text of each part opens as many brackets as the part is deep. -/
def OpensDepth (write : α → List Char) (depthOf : α → Nat) (item : α) : Prop :=
  ∀ n rest, openBrackets .outside n (write item ++ rest) =
    max (n + depthOf item) (openBrackets .outside n rest)

variable {write : α → List Char} {depthOf : α → Nat} {items : List α}

/-- A list with commas nests as deeply as the deepest of its parts. -/
theorem openBrackets_commaSeparated (h : ∀ item ∈ items, OpensDepth write depthOf item) (n : Nat)
    (rest : List Char) :
    openBrackets .outside n (commaSeparated write items ++ rest) =
      max (n + (items.map depthOf).foldr max 0) (openBrackets .outside n rest) := by
  have htail : ∀ items : List α, (∀ item ∈ items, OpensDepth write depthOf item) →
      openBrackets .outside n (commaTail write items ++ rest) =
        max (n + (items.map depthOf).foldr max 0) (openBrackets .outside n rest) := by
    intro items h
    -- each part ends on the level on which it starts
    induction items with
    | nil => exact (Nat.max_eq_right (le_openBrackets .outside n rest)).symm
    | cons item items ih =>
      show openBrackets .outside n ((write item ++ commaTail write items) ++ rest) = _
      rw [List.append_assoc, h item List.mem_cons_self,
        ih fun item hitem => h item (List.mem_cons_of_mem _ hitem), List.map_cons, List.foldr_cons]
      omega
  cases items with
  | nil => exact htail [] h
  | cons item items => exact htail (item :: items) h

end Commas

theorem depthOfItems_eq (items : List Json) :
    depthOfItems items = (items.map depth).foldr max 0 := by
  induction items with
  | nil => rfl
  | cons item items ih => rw [depthOfItems, ih, List.map_cons, List.foldr_cons]

theorem depthOfFields_eq (fields : List (String × Json)) :
    depthOfFields fields = (fields.map (depth ·.2)).foldr max 0 := by
  induction fields with
  | nil => rfl
  | cons field fields ih => rw [depthOfFields, ih, List.map_cons, List.foldr_cons]

/-- Brackets around a text that opens some. -/
theorem openBrackets_bracketed {opening closing : Char}
    (h : (opening, closing) ∈ [('[', ']'), ('\x7b', '\x7d')]) {inner rest : List Char} {n d : Nat}
    (hinner : openBrackets .outside (n + 1) (inner ++ closing :: rest) =
      max (n + 1 + d) (openBrackets .outside (n + 1) (closing :: rest))) :
    openBrackets .outside n (opening :: inner ++ closing :: rest) =
      max (n + (d + 1)) (openBrackets .outside n rest) := by
  have hle := le_openBrackets .outside n rest
  simp only [List.mem_cons, Prod.mk.injEq, List.not_mem_nil, or_false] at h
  -- both kinds of brackets count alike
  have hopening : openBrackets .outside n (opening :: inner ++ closing :: rest) =
      openBrackets .outside (n + 1) (inner ++ closing :: rest) := by
    rcases h with ⟨rfl, rfl⟩ | ⟨rfl, rfl⟩ <;> rfl
  have hclosing : openBrackets .outside (n + 1) (closing :: rest) =
      max (n + 1) (openBrackets .outside n rest) := by
    rcases h with ⟨rfl, rfl⟩ | ⟨rfl, rfl⟩ <;> rfl
  rw [hopening, hinner, hclosing]
  omega

theorem Exact.opensDepth {j : Json} (h : j.Exact) : OpensDepth compactChars depth j := by
  -- on the value: atoms open nothing, and brackets add one level to what stands in them
  induction h with
  | null => exact fun n rest => (Nat.max_eq_right (le_openBrackets .outside n rest)).symm
  | bool b =>
    intro n rest
    cases b <;> exact (Nat.max_eq_right (le_openBrackets .outside n rest)).symm
  | @int i _ =>
    intro n rest
    have hchars : ∀ c ∈ (toString i).toList, c = '-' ∨ c.isDigit := by
      intro c hc
      rw [toList_toString, signed, List.mem_append] at hc
      refine hc.imp (fun hc => ?_)
        fun hc => Nat.isDigit_of_mem_toDigits (by decide) (by decide) hc
      split_ifs at hc
      · exact List.mem_singleton.mp hc
      · exact absurd hc List.not_mem_nil
    rw [compactChars_int, openBrackets_number hchars]
    exact (Nat.max_eq_right (le_openBrackets .outside n rest)).symm
  | text s =>
    intro n rest
    rw [compactChars_text, openBrackets_quote]
    exact (Nat.max_eq_right (le_openBrackets .outside n rest)).symm
  | @array items _ ih =>
    intro n rest
    have hitems := openBrackets_commaSeparated ih (n + 1) (']' :: rest)
    rw [compactChars, itemChars_eq, List.append_assoc, depth, depthOfItems_eq]
    exact openBrackets_bracketed (by decide) hitems
  | @object fields _ ih =>
    intro n rest
    have hfield : ∀ field ∈ fields, OpensDepth fieldText (depth ·.2) field := by
      intro field hfield n rest
      rw [fieldText, List.append_assoc, openBrackets_quote]
      exact ih field hfield n rest
    have hfields := openBrackets_commaSeparated hfield (n + 1) ('\x7d' :: rest)
    rw [compactChars, fieldChars_eq, List.append_assoc, depth, depthOfFields_eq]
    exact openBrackets_bracketed (by decide) hfields

/-- What is written from a value nests as deeply as the value. -/
theorem Exact.nesting_compact {j : Json} (h : j.Exact) : nesting j.compact = j.depth := by
  have hopens := h.opensDepth 0 []
  rw [List.append_nil] at hopens
  rw [nesting, compact, String.toList_ofList, hopens, Nat.zero_add]
  exact Nat.max_eq_left (Nat.zero_le _)

end EntityQuery.Json
