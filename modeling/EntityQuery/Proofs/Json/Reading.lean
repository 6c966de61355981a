import Mathlib.Data.Option.Basic
import Mathlib.Tactic.SplitIfs
import EntityQuery.Json.Printer
import EntityQuery.Json.Reader

/-!
# Reading what was written

Values that their text says in full are read back from their compact form (`Exact.parse_compact`).
The reader takes such a text off the front of a document and leaves what follows, so that arrays and
objects can be put together from what is read of their parts. Only behind a number it matters what
follows: a digit there would belong to it.
-/

namespace EntityQuery.Json

/-! ## §1 Numbers -/

/-- A character that belongs to a number which stands before it. -/
def continuesNumber (c : Char) : Bool :=
  c.isDigit || c = '.' || c = 'e' || c = 'E'

/-- What follows a number and is no part of it. -/
def EndsNumber (rest : List Char) : Prop :=
  ∀ c ∈ rest.head?, continuesNumber c = false

theorem readDigits_append {digits rest : List Char} (hdigits : ∀ c ∈ digits, c.isDigit)
    (hne : digits ≠ []) (hrest : EndsNumber rest) :
    Text.readDigits (digits ++ rest) = some (digits, rest) := by
  have hsplit : Text.splitDigits (digits ++ rest) = (digits, rest) := by
    rw [Text.splitDigits, List.takeWhile_append_of_pos hdigits,
      List.dropWhile_append_of_pos hdigits]
    cases rest with
    | nil => simp
    | cons c rest =>
      have hc : c.isDigit = false := by
        have := hrest c rfl
        simp only [continuesNumber, Bool.or_eq_false_iff] at this
        exact this.1.1.1
      simp [hc]
  unfold Text.readDigits
  rw [hsplit]
  cases digits with
  | nil => exact absurd rfl hne
  | cons d digits => rfl

/-- No number but zero is written with a zero at its start. -/
theorem exists_toDigits_eq_cons {n : Nat} (h : 0 < n) :
    ∃ d ds, Nat.toDigits 10 n = d :: ds ∧ d ≠ '0' := by
  induction n using Nat.strongRecOn with
  | ind n ih =>
    by_cases hn : n < 10
    · refine ⟨Nat.digitChar n, [], Nat.toDigits_of_lt_base hn, ?_⟩
      have hdigits : ∀ m < 10, 0 < m → Nat.digitChar m ≠ '0' := by decide
      exact hdigits n hn h
    · -- the first digit is that of the number without its last digit
      obtain ⟨d, ds, hds, hd⟩ := ih (n / 10) (by omega) (by omega)
      refine ⟨d, ds ++ [Nat.digitChar (n % 10)], ?_, hd⟩
      rw [Nat.toDigits_of_base_le (by decide) (by omega), hds, List.cons_append]

theorem readWhole_toDigits (n : Nat) {rest : List Char} (hrest : EndsNumber rest) :
    readWhole (Nat.toDigits 10 n ++ rest) = some (Nat.toDigits 10 n, rest) := by
  have hdigits : ∀ c ∈ Nat.toDigits 10 n, c.isDigit := fun c hc =>
    Nat.isDigit_of_mem_toDigits (by decide) (by decide) hc
  unfold readWhole
  rw [readDigits_append hdigits Nat.toDigits_ne_nil hrest]
  -- more digits after a zero are refused, but only zero is written with a zero in front
  rcases Nat.eq_zero_or_pos n with rfl | hn
  · rfl
  · obtain ⟨d, ds, hds, hd⟩ := exists_toDigits_eq_cons hn
    rw [hds]
    split
    · rename_i heq
      simp only [Option.some.injEq, Prod.mk.injEq, List.cons.injEq] at heq
      exact absurd heq.1.1 hd
    · rfl

theorem readFraction_of_endsNumber {rest : List Char} (hrest : EndsNumber rest) :
    readFraction rest = some (none, rest) := by
  unfold readFraction
  split
  · exact absurd (hrest '.' rfl) (by decide)
  · rfl

theorem readExponent_of_endsNumber {rest : List Char} (hrest : EndsNumber rest) :
    readExponent rest = some (none, rest) := by
  unfold readExponent
  split
  · exact absurd (hrest 'e' rfl) (by decide)
  · exact absurd (hrest 'E' rfl) (by decide)
  · rfl

/-- The sign and the digits of a number. -/
def signed (negative : Bool) (n : Nat) : List Char :=
  (if negative then ['-'] else []) ++ Nat.toDigits 10 n

theorem toList_toString (n : Int) : (toString n).toList = signed (n < 0) n.natAbs := by
  cases n with
  | ofNat n =>
    show (Nat.repr n).toList = _
    rw [Nat.repr_eq_ofList_toDigits, String.toList_ofList]
    simp [signed]
  | negSucc n =>
    show ("-" ++ Nat.repr (n + 1)).toList = _
    rw [Nat.repr_eq_ofList_toDigits, String.toList_append, String.toList_ofList]
    simp [signed, Int.negSucc_lt_zero]

theorem readSign_signed (negative : Bool) (n : Nat) (rest : List Char) :
    readSign (signed negative n ++ rest) = (negative, Nat.toDigits 10 n ++ rest) := by
  cases negative with
  | true => rfl
  | false =>
    show readSign (Nat.toDigits 10 n ++ rest) = _
    unfold readSign
    split
    · rename_i cs heq
      -- a minus is no digit
      have hminus : '-' ∈ Nat.toDigits 10 n := by
        cases hds : Nat.toDigits 10 n with
        | nil => exact absurd hds Nat.toDigits_ne_nil
        | cons d ds =>
          rw [hds] at heq
          rw [(List.cons.inj heq).1]
          exact List.mem_cons_self
      exact absurd (Nat.isDigit_of_mem_toDigits (by decide) (by decide) hminus) (by decide)
    · rfl

theorem readNumeral_signed (negative : Bool) (n : Nat) {rest : List Char}
    (hrest : EndsNumber rest) :
    readNumeral (signed negative n ++ rest) =
      some (⟨negative, Nat.toDigits 10 n, none, none⟩, rest) := by
  unfold readNumeral
  rw [readSign_signed]
  simp [readWhole_toDigits n hrest, readFraction_of_endsNumber hrest,
    readExponent_of_endsNumber hrest]

/-- An integer of 64 bits, with a sign or without, is read back. -/
theorem readNumber_toString {n : Int} (h : fitsSigned 64 n ∨ fitsUnsigned 64 n)
    {rest : List Char} (hrest : EndsNumber rest) :
    readNumber ((toString n).toList ++ rest) = some (.int n, rest) := by
  have hwidth : numbersOf (64 - 1) ≤ numbersOf 64 := by decide
  rw [fitsSigned_iff, fitsUnsigned_iff] at h
  rw [readNumber, toList_toString, readNumeral_signed _ _ hrest]
  have hint : (⟨n < 0, Nat.toDigits 10 n.natAbs, none, none⟩ : Numeral).toInt = n := by
    simp only [Numeral.toInt, Text.digitsToNat_toDigits, decide_eq_true_eq]
    split <;> omega
  -- negative numbers have to fit with a sign, and all others without one
  have hinteger : (⟨n < 0, Nat.toDigits 10 n.natAbs, none, none⟩ : Numeral).isInteger = true := by
    simp only [Numeral.isInteger, hint, Option.isNone_none, Bool.true_and, decide_eq_true_eq]
    split
    · rename_i hneg
      rw [Bool.and_eq_true, fitsSigned_iff, decide_eq_true_eq]
      omega
    · rw [fitsUnsigned_iff]
      omega
  simp [Numeral.value, hinteger, hint]

/-! ## §2 Texts -/

theorem hexToNat?_hexDigits {n : Nat} (h : n < 0x20) :
    Text.hexToNat? ['0', '0', hexDigit (n / 16), hexDigit (n % 16)] = some n := by
  -- there are few enough control characters to try all of them
  have hall : ∀ m < 0x20,
      Text.hexToNat? ['0', '0', hexDigit (m / 16), hexDigit (m % 16)] = some m := by decide
  exact hall n h

theorem ofCode_toNat {c : Char} (h : c.toNat < 0x20) : TextUnit.ofCode c.toNat = .char c := by
  have hhigh : ¬ 0xD800 ≤ c.toNat := by omega
  have hlow : ¬ 0xDC00 ≤ c.toNat := by omega
  simp [TextUnit.ofCode, hhigh, hlow]

theorem readUnits_letter {e c : Char} (h : escaped? e = some c) (cs : List Char) :
    readUnits ('\\' :: e :: cs) =
      (readUnits cs).map fun (units, rest) => (.char c :: units, rest) := by
  have he : e ≠ 'u' := by
    rintro rfl
    simp [escaped?] at h
  rw [readUnits, h]
  · cases readUnits cs <;> rfl
  · exact fun _ _ _ _ _ hu => absurd hu he

/-- A character of a text is read back, whichever way it is written. -/
theorem readUnits_escape (c : Char) (cs : List Char) :
    readUnits (escape c ++ cs) =
      (readUnits cs).map fun (units, rest) => (.char c :: units, rest) := by
  unfold escape
  -- characters with an escape of their own, then the other control characters
  split_ifs with hquote hbackslash hb hf hn hr ht hcontrol
  · rw [hquote]; exact readUnits_letter rfl cs
  · rw [hbackslash]; exact readUnits_letter rfl cs
  · rw [hb]; exact readUnits_letter rfl cs
  · rw [hf]; exact readUnits_letter rfl cs
  · rw [hn]; exact readUnits_letter rfl cs
  · rw [hr]; exact readUnits_letter rfl cs
  · rw [ht]; exact readUnits_letter rfl cs
  · have hcode := hexToNat?_hexDigits hcontrol
    simp only [List.cons_append, List.nil_append]
    rw [readUnits, hcode, ← ofCode_toNat hcontrol]
    cases readUnits cs <;> rfl
  · -- all other characters stand for themselves
    have hprintable : (0x20 ≤ c.toNat && c ≠ '\\') = true := by
      simp [Nat.le_of_not_lt hcontrol, hbackslash]
    have hguard : (guard ((0x20 ≤ c.toNat && c ≠ '\\') = true) : Option Unit) = some () :=
      if_pos hprintable
    rw [List.singleton_append, readUnits]
    · rw [hguard]
      cases readUnits cs <;> rfl
    · exact hquote
    · exact fun _ _ _ _ _ h => absurd h hbackslash
    · exact fun _ _ h => absurd h hbackslash

theorem readUnits_flatMap_escape (cs rest : List Char) :
    readUnits (cs.flatMap escape ++ '"' :: rest) = some (cs.map .char, rest) := by
  induction cs with
  | nil => rfl
  | cons c cs ih => rw [List.flatMap_cons, List.append_assoc, readUnits_escape, ih]; rfl

theorem spell_map_char (cs : List Char) : spell (cs.map .char) = some cs := by
  induction cs with
  | nil => rfl
  | cons c cs ih => simp [spell, ih]

/-- Every text is read back from between its quotes. -/
theorem readText_escape (s : String) (rest : List Char) :
    readText (s.toList.flatMap escape ++ '"' :: rest) = some (some s, rest) := by
  simp [readText, readUnits_flatMap_escape, spell_map_char]

/-! ## §3 Lists with commas -/

section Commas

variable {α : Type} (write : α → List Char)

/-- The texts after the first of a list with commas. -/
def commaTail (items : List α) : List Char :=
  items.flatMap fun item => ',' :: write item

/-- The texts of a list with commas between them. -/
def commaSeparated : List α → List Char
  | [] => []
  | item :: items => write item ++ commaTail write items

theorem length_le_commaTail (items : List α) : items.length ≤ (commaTail write items).length := by
  induction items with
  | nil => exact Nat.zero_le _
  | cons item items ih =>
    rw [commaTail, List.flatMap_cons] at *
    simp only [List.length_cons, List.length_append]
    omega

theorem length_le_commaSeparated (items : List α) :
    items.length ≤ (commaSeparated write items).length + 1 := by
  cases items with
  | nil => exact Nat.zero_le _
  | cons item items =>
    -- each item but the first has a comma
    have := length_le_commaTail write items
    rw [commaSeparated, List.length_append, List.length_cons]
    omega

theorem length_le_commaSeparated_of_mem {item : α} {items : List α} (h : item ∈ items) :
    (write item).length ≤ (commaSeparated write items).length := by
  cases items with
  | nil => exact absurd h List.not_mem_nil
  | cons first items =>
    rw [commaSeparated, List.length_append]
    rcases List.mem_cons.mp h with rfl | h
    · exact Nat.le_add_right _ _
    · obtain ⟨before, after, rfl⟩ := List.append_of_mem h
      simp only [commaTail, List.flatMap_append, List.flatMap_cons, List.length_append,
        List.length_cons]
      omega

end Commas

theorem itemChars_eq (items : List Json) : itemChars items = commaSeparated compactChars items := by
  cases items with
  | nil => rfl
  | cons item items =>
    -- a comma behind each item but the last is one before each item but the first
    induction items generalizing item with
    | nil => simp [itemChars, commaSeparated, commaTail]
    | cons next items ih => simp [itemChars, ih, commaSeparated, commaTail]

/-- A field as it is written. -/
def fieldText (field : String × Json) : List Char :=
  quote field.1 ++ ':' :: compactChars field.2

theorem fieldChars_eq (fields : List (String × Json)) :
    fieldChars fields = commaSeparated fieldText fields := by
  cases fields with
  | nil => rfl
  | cons field fields =>
    induction fields generalizing field with
    | nil => simp [fieldChars, fieldText, commaSeparated, commaTail]
    | cons next fields ih => simp [fieldChars, ih, fieldText, commaSeparated, commaTail]

/-! ## §4 Values -/

/-- Values that their text says in full: of the numbers, the integers that fit 64 bits. -/
inductive Exact : Json → Prop
  | null : Exact .null
  | bool (b : Bool) : Exact (.bool b)
  | int {n : Int} (h : fitsSigned 64 n ∨ fitsUnsigned 64 n) : Exact (.int n)
  | text (s : String) : Exact (.text s)
  | array {items : List Json} (h : ∀ item ∈ items, Exact item) : Exact (.array items)
  | object {fields : List (String × Json)} (h : ∀ field ∈ fields, Exact field.2) :
    Exact (.object fields)

theorem skipSeparators_cons {c : Char} (h : isSeparator c = false) (cs : List Char) :
    skipSeparators (c :: cs) = c :: cs := by
  simp [skipSeparators, h]

theorem exists_signed_eq_cons (negative : Bool) (n : Nat) :
    ∃ c cs, signed negative n = c :: cs ∧ (c = '-' ∨ c.isDigit) := by
  cases negative with
  | true => exact ⟨'-', _, rfl, .inl rfl⟩
  | false =>
    cases hds : Nat.toDigits 10 n with
    | nil => exact absurd hds Nat.toDigits_ne_nil
    | cons d ds =>
      refine ⟨d, ds, hds, .inr ?_⟩
      apply Nat.isDigit_of_mem_toDigits (b := 10) (n := n) (by decide) (by decide)
      rw [hds]
      exact List.mem_cons_self

/-- A character that no number starts with is not the first one of a number. -/
theorem ne_of_startsNumber {c : Char} (h : c = '-' ∨ c.isDigit) (other : Char)
    (hother : (other = '-' || other.isDigit) = false) : c ≠ other := by
  rintro rfl
  simp only [Bool.or_eq_false_iff, decide_eq_false_iff_not] at hother
  exact h.elim hother.1 (by simp [hother.2])

theorem isSeparator_of_startsNumber {c : Char} (h : c = '-' ∨ c.isDigit) :
    isSeparator c = false := by
  have hblank := ne_of_startsNumber h ' ' (by decide)
  have htab := ne_of_startsNumber h '\t' (by decide)
  have hline := ne_of_startsNumber h '\n' (by decide)
  have hreturn := ne_of_startsNumber h '\r' (by decide)
  simp [isSeparator, hblank, htab, hline, hreturn]

/-- The text of a value starts with neither a separator nor a bracket that closes. -/
theorem Exact.exists_compactChars_eq_cons {j : Json} (h : j.Exact) :
    ∃ c cs, compactChars j = c :: cs ∧ isSeparator c = false ∧ c ≠ ']' := by
  cases h with
  | null => exact ⟨'n', _, rfl, by decide, by decide⟩
  | bool b => cases b with
    | false => exact ⟨'f', _, rfl, by decide, by decide⟩
    | true => exact ⟨'t', _, rfl, by decide, by decide⟩
  | int =>
    rename_i n _
    obtain ⟨c, cs, hsigned, hc⟩ := exists_signed_eq_cons (n < 0) n.natAbs
    refine ⟨c, cs, ?_, isSeparator_of_startsNumber hc, ne_of_startsNumber hc _ (by decide)⟩
    rw [← hsigned, ← toList_toString]
    simp only [compactChars, renderAtom]
  | text s => exact ⟨'"', _, rfl, by decide, by decide⟩
  | array => exact ⟨'[', _, rfl, by decide, by decide⟩
  | object => exact ⟨'\x7b', _, rfl, by decide, by decide⟩

theorem readValue_of_startsNumber {c : Char} (h : c = '-' ∨ c.isDigit) (fuel : Nat)
    (cs : List Char) : readValue (fuel + 1) (c :: cs) = readNumber (c :: cs) := by
  unfold readValue
  rw [skipSeparators_cons (isSeparator_of_startsNumber h)]
  -- no other kind of value starts like a number
  split
  case h_1 heq => exact absurd (List.cons.inj heq).1 (ne_of_startsNumber h _ (by decide))
  case h_2 heq => exact absurd (List.cons.inj heq).1 (ne_of_startsNumber h _ (by decide))
  case h_3 heq => exact absurd (List.cons.inj heq).1 (ne_of_startsNumber h _ (by decide))
  case h_4 heq => exact absurd (List.cons.inj heq).1 (ne_of_startsNumber h _ (by decide))
  case h_5 heq => exact absurd (List.cons.inj heq).1 (ne_of_startsNumber h _ (by decide))
  case h_6 heq => exact absurd (List.cons.inj heq).1 (ne_of_startsNumber h _ (by decide))
  case h_7 => rfl

/-- What closes or separates is no part of a number. -/
theorem endsNumber_cons {c : Char} (h : continuesNumber c = false) (rest : List Char) :
    EndsNumber (c :: rest) := by
  intro other hother
  rwa [← Option.some.inj hother]

/-- The reader takes the text of a value off the front of any document that does not go on with
the same number. -/
def Takes (read : Reader Json) (j : Json) : Prop :=
  ∀ rest, EndsNumber rest → read (compactChars j ++ rest) = some (j, rest)

/-- What is written one by one is read back one by one. -/
theorem mapM_map_eq_some {α β : Type} {write : α → β} {read : β → Option α} {items : List α}
    (h : ∀ item ∈ items, read (write item) = some item) :
    (items.map write).mapM read = some items := by
  induction items with
  | nil => rfl
  | cons item items ih =>
    rw [List.map_cons, List.mapM_cons, h item List.mem_cons_self,
      ih fun item hitem => h item (List.mem_cons_of_mem _ hitem)]
    rfl

section Parts

variable {read : Reader Json}

theorem endsNumber_commaTail {α : Type} (write : α → List Char) (items : List α) {c : Char}
    (hc : continuesNumber c = false) (rest : List Char) :
    EndsNumber (commaTail write items ++ c :: rest) := by
  cases items with
  | nil => exact endsNumber_cons hc rest
  | cons item items => exact endsNumber_cons (by decide) _

theorem readItems_commaTail {items : List Json} (h : ∀ item ∈ items, Takes read item)
    {fuel : Nat} (hfuel : items.length < fuel) (rest : List Char) :
    readItems read fuel (commaTail compactChars items ++ ']' :: rest) = some (items, rest) := by
  -- on the items; each of them uses up some fuel, and so does the bracket at the end
  induction items generalizing fuel with
  | nil =>
    obtain ⟨fuel, rfl⟩ := Nat.exists_eq_add_of_lt hfuel
    simp [readItems, commaTail, skipSeparators, isSeparator]
  | cons item items ih =>
    obtain ⟨fuel, rfl⟩ := Nat.exists_eq_succ_of_ne_zero (Nat.ne_of_gt (Nat.zero_lt_of_lt hfuel))
    have hitem := h item List.mem_cons_self _
      (endsNumber_commaTail compactChars items (c := ']') (by decide) rest)
    have hitems := ih (fun item hitem => h item (List.mem_cons_of_mem _ hitem))
      (Nat.lt_of_succ_lt_succ hfuel)
    rw [readItems, commaTail, List.flatMap_cons, List.cons_append, List.cons_append,
      skipSeparators_cons (by decide), List.append_assoc]
    rw [commaTail] at hitem hitems
    simp [hitem, hitems]

theorem readField_fieldText {field : String × Json} (h : Takes read field.2) {rest : List Char}
    (hrest : EndsNumber rest) :
    readField read (fieldText field ++ rest) = some ((some field.1, field.2), rest) := by
  rw [readField, fieldText, quote, List.cons_append, List.cons_append, List.cons_append,
    skipSeparators_cons (by decide)]
  simp only [List.append_assoc, List.cons_append, List.nil_append]
  simp [readText_escape, skipSeparators_cons, isSeparator, h rest hrest]

theorem readFields_commaTail {fields : List (String × Json)}
    (h : ∀ field ∈ fields, Takes read field.2) {fuel : Nat} (hfuel : fields.length < fuel)
    (rest : List Char) :
    readFields read fuel (commaTail fieldText fields ++ '\x7d' :: rest) =
      some (fields.map fun field => (some field.1, field.2), rest) := by
  induction fields generalizing fuel with
  | nil =>
    obtain ⟨fuel, rfl⟩ := Nat.exists_eq_add_of_lt hfuel
    simp [readFields, commaTail, skipSeparators, isSeparator]
  | cons field fields ih =>
    obtain ⟨fuel, rfl⟩ := Nat.exists_eq_succ_of_ne_zero (Nat.ne_of_gt (Nat.zero_lt_of_lt hfuel))
    have hfield := readField_fieldText (h field List.mem_cons_self)
      (endsNumber_commaTail fieldText fields (c := '\x7d') (by decide) rest)
    have hfields := ih (fun field hfield => h field (List.mem_cons_of_mem _ hfield))
      (Nat.lt_of_succ_lt_succ hfuel)
    rw [readFields, commaTail, List.flatMap_cons, List.cons_append, List.cons_append,
      skipSeparators_cons (by decide), List.append_assoc]
    rw [commaTail] at hfield hfields
    simp [hfield, hfields]

theorem readArray_commaSeparated {items : List Json} (hexact : ∀ item ∈ items, item.Exact)
    (h : ∀ item ∈ items, Takes read item) {fuel : Nat} (hfuel : items.length ≤ fuel)
    (rest : List Char) :
    readArray read fuel (commaSeparated compactChars items ++ ']' :: rest) =
      some (.array items, rest) := by
  cases items with
  | nil => simp [readArray, commaSeparated, skipSeparators, isSeparator]
  | cons item items =>
    obtain ⟨c, cs, hcs, hseparator, hbracket⟩ :=
      (hexact item List.mem_cons_self).exists_compactChars_eq_cons
    have hitem := h item List.mem_cons_self _
      (endsNumber_commaTail compactChars items (c := ']') (by decide) rest)
    have hitems := readItems_commaTail (fun item hitem => h item (List.mem_cons_of_mem _ hitem))
      hfuel rest
    rw [hcs, List.cons_append] at hitem
    -- the array is not over before its first item
    rw [readArray, commaSeparated, List.append_assoc, hcs, List.cons_append,
      skipSeparators_cons hseparator]
    split
    · rename_i heq
      exact absurd (List.cons.inj heq).1 hbracket
    · simp [hitem, hitems]

theorem ofNamed_some (fields : List (String × Json)) :
    ofNamed (fields.map fun field => (some field.1, field.2)) = .object fields := by
  rw [ofNamed, mapM_map_eq_some]
  exact fun field _ => rfl

theorem readObject_commaSeparated {fields : List (String × Json)}
    (h : ∀ field ∈ fields, Takes read field.2) {fuel : Nat} (hfuel : fields.length ≤ fuel)
    (rest : List Char) :
    readObject read fuel (commaSeparated fieldText fields ++ '\x7d' :: rest) =
      some (.object fields, rest) := by
  cases fields with
  | nil => simp [readObject, commaSeparated, skipSeparators, isSeparator]
  | cons field fields =>
    have hfield := readField_fieldText (h field List.mem_cons_self)
      (endsNumber_commaTail fieldText fields (c := '\x7d') (by decide) rest)
    have hfields := readFields_commaTail
      (fun field hfield => h field (List.mem_cons_of_mem _ hfield)) hfuel rest
    have hnamed := ofNamed_some (field :: fields)
    rw [List.map_cons] at hnamed
    have hstart : ∃ cs, fieldText field = '"' :: cs := ⟨_, rfl⟩
    obtain ⟨cs, hcs⟩ := hstart
    rw [hcs, List.cons_append] at hfield
    rw [readObject, commaSeparated, List.append_assoc, hcs, List.cons_append,
      skipSeparators_cons (by decide)]
    simp [hfield, hfields, hnamed]

end Parts

theorem compactChars_int (n : Int) : compactChars (.int n) = (toString n).toList := by
  simp [compactChars, renderAtom]

theorem compactChars_text (s : String) : compactChars (.text s) = quote s := by
  simp [compactChars, renderAtom]

/-- With as much fuel as the text is long, a value is read from the front of any document. -/
theorem Exact.takes {j : Json} (h : j.Exact) {fuel : Nat} (hfuel : (compactChars j).length ≤ fuel) :
    Takes (readValue (fuel + 1)) j := by
  -- on the value: what stands in brackets is shorter, and is read with less fuel
  induction h generalizing fuel with
  | null => exact fun rest _ => rfl
  | bool b =>
    intro rest _
    cases b <;> rfl
  | @int n h =>
    intro rest hrest
    obtain ⟨c, cs, hcs, hc⟩ := exists_signed_eq_cons (n < 0) n.natAbs
    have hread := readNumber_toString h hrest
    rw [← toList_toString] at hcs
    rw [hcs, List.cons_append] at hread
    rwa [compactChars_int, hcs, List.cons_append, readValue_of_startsNumber hc]
  | text s =>
    intro rest _
    rw [compactChars_text, quote, List.cons_append, List.cons_append, readValue,
      skipSeparators_cons (by decide)]
    simp [readText_escape]
  | @array items hexact ih =>
    intro rest _
    simp only [compactChars, itemChars_eq, List.length_append, List.length_cons,
      List.length_nil] at hfuel
    -- the two brackets leave enough fuel for each item, and for the number of items
    obtain ⟨fuel, rfl⟩ := Nat.exists_eq_add_of_le' (Nat.le_of_add_left_le hfuel)
    have hitems : ∀ item ∈ items, Takes (readValue (fuel + 1)) item := by
      intro item hitem
      have hlength := length_le_commaSeparated_of_mem compactChars hitem
      exact ih item hitem (by omega)
    have hlength := length_le_commaSeparated compactChars items
    rw [compactChars, itemChars_eq, List.cons_append, List.cons_append, readValue,
      skipSeparators_cons (by decide), List.append_assoc]
    apply readArray_commaSeparated hexact hitems
    omega
  | @object fields _ ih =>
    intro rest _
    simp only [compactChars, fieldChars_eq, List.length_append, List.length_cons,
      List.length_nil] at hfuel
    obtain ⟨fuel, rfl⟩ := Nat.exists_eq_add_of_le' (Nat.le_of_add_left_le hfuel)
    have hfields : ∀ field ∈ fields, Takes (readValue (fuel + 1)) field.2 := by
      intro field hfield
      -- the value of a field is shorter than the field with its name
      have hlength := length_le_commaSeparated_of_mem fieldText hfield
      rw [fieldText, List.length_append, List.length_cons] at hlength
      exact ih field hfield (by omega)
    have hlength := length_le_commaSeparated fieldText fields
    rw [compactChars, fieldChars_eq, List.cons_append, List.cons_append, readValue,
      skipSeparators_cons (by decide), List.append_assoc]
    apply readObject_commaSeparated hfields
    omega

theorem parse_of_readValue {document : String} {json : Json} {rest : List Char}
    (h : readValue (document.toList.length + 1) document.toList = some (json, rest)) :
    parse document = if (skipSeparators rest).isEmpty then some json else none := by
  rw [parse, h]
  show (guard ((skipSeparators rest).isEmpty = true) >>= fun _ => some json) = _
  cases (skipSeparators rest).isEmpty <;> rfl

/-- What is written in the compact form is read back. -/
theorem Exact.parse_compact {j : Json} (h : j.Exact) : parse j.compact = some j := by
  have hend : EndsNumber [] := fun c hc => absurd hc (by simp)
  have hread := h.takes (Nat.le_refl (compactChars j).length) [] hend
  rw [List.append_nil] at hread
  have hdocument : j.compact.toList = compactChars j := String.toList_ofList
  rw [← hdocument] at hread
  rw [parse_of_readValue hread]
  rfl

/-! ## §5 Solid values -/

theorem areItemsSolid_eq (items : List Json) : areItemsSolid items = items.all isSolid := by
  induction items with
  | nil => rfl
  | cons item items ih => rw [areItemsSolid, ih, List.all_cons]

theorem areFieldsSolid_eq (fields : List (String × Json)) :
    areFieldsSolid fields = fields.all (isSolid ·.2) := by
  induction fields with
  | nil => rfl
  | cons field fields ih => rw [areFieldsSolid, ih, List.all_cons]

theorem Exact.isSolid {j : Json} (h : j.Exact) : j.isSolid = true := by
  induction h with
  | null | bool | int | text => simp [Json.isSolid]
  | array _ ih =>
    rw [Json.isSolid, areItemsSolid_eq, List.all_eq_true]
    exact ih
  | object _ ih =>
    rw [Json.isSolid, areFieldsSolid_eq, List.all_eq_true]
    exact ih

/-! ## §6 Lists of texts -/

theorem asTexts?_texts (texts : List String) :
    (Json.array (texts.map .text)).asTexts? = some texts :=
  mapM_map_eq_some fun _ _ => rfl

end EntityQuery.Json
