import Mathlib.Data.List.TakeWhile
import EntityQuery.Settings.Basic

/-!
# Expansion is a substitution

A text is taken apart into segments in one way only, if each segment has to end where what follows
it lets it end (`decomposes_iff`). Expansion copies the segments one after the other, with the value
of its variable in place of each reference, and fails with the error of the first segment that has
no meaning (`Environment.expandSetting_substitutes`). Values are not looked at, so a `$` in one of
them is a character like any other.
-/

namespace EntityQuery

/-! ## §1 Decompositions -/

/-- A name without braces ends where this text begins. -/
def EndsName (rest : List Char) : Prop :=
  ∀ c ∈ rest.head?, isNameChar c = false

/-- What a segment has to be like if this text follows it. -/
def Segment.Fits (rest : List Char) : Segment → Prop
  | plain c => c ≠ '$'
  | lone => rest.head? ≠ some '\x7b' ∧ EndsName rest
  | braced name => '\x7d' ∉ name
  | bare name => name ≠ [] ∧ (∀ c ∈ name, isNameChar c = true) ∧ EndsName rest
  | unclosed after => '\x7d' ∉ after ∧ rest = []

/-- The segments spell a text, and each of them fits what follows it. -/
structure Decomposes (text : List Char) (ss : List Segment) : Prop where
  spelled : ss.flatMap Segment.spelling = text
  fits : ∀ before segment after, ss = before ++ segment :: after →
    segment.Fits (after.flatMap Segment.spelling)

variable {text rest name cs : List Char} {segment : Segment} {ss : List Segment}

theorem decomposes_nil : Decomposes text [] ↔ text = [] := by
  constructor
  · exact fun h => h.spelled.symm
  · rintro rfl
    exact ⟨rfl, by simp⟩

theorem decomposes_cons : Decomposes text (segment :: ss) ↔
    ∃ rest, text = segment.spelling ++ rest ∧ segment.Fits rest ∧ Decomposes rest ss := by
  constructor
  · -- the spelling of the segments behind the first one is the rest of the text
    intro h
    refine ⟨ss.flatMap Segment.spelling, h.spelled.symm, h.fits [] segment ss rfl, rfl, ?_⟩
    intro before other after hss
    exact h.fits (segment :: before) other after (by rw [hss, List.cons_append])
  · rintro ⟨rest, rfl, hfits, hrest⟩
    refine ⟨by rw [List.flatMap_cons, hrest.spelled], ?_⟩
    intro before other after hss
    cases before with
    | nil =>
      obtain ⟨rfl, rfl⟩ := List.cons.inj hss
      rwa [hrest.spelled]
    | cons first before => exact hrest.fits before other after (List.cons.inj hss).2

theorem span_isNameChar (hname : ∀ c ∈ name, isNameChar c = true) (hend : EndsName rest) :
    (name ++ rest).takeWhile isNameChar = name ∧ (name ++ rest).dropWhile isNameChar = rest := by
  rw [List.takeWhile_append_of_pos hname, List.dropWhile_append_of_pos hname]
  -- the first character of the rest, if there is one, ends the name
  cases rest with
  | nil => simp
  | cons c rest => simp [hend c rfl]

theorem span_brace (h : '\x7d' ∉ name) (rest : List Char) :
    (name ++ '\x7d' :: rest).takeWhile (· ≠ '\x7d') = name ∧
      (name ++ '\x7d' :: rest).dropWhile (· ≠ '\x7d') = '\x7d' :: rest := by
  have hname : ∀ c ∈ name, decide (c ≠ '\x7d') = true := by
    intro c hc
    simpa using ne_of_mem_of_not_mem hc h
  rw [List.takeWhile_append_of_pos hname, List.dropWhile_append_of_pos hname]
  simp

theorem isNameChar_brace : isNameChar '\x7b' = false := by
  decide +kernel

/-- Behind a `$` without an opening brace there is a name or nothing. -/
theorem segments_bare (hbrace : (name ++ rest).head? ≠ some '\x7b')
    (hname : ∀ c ∈ name, isNameChar c = true) (hend : EndsName rest) :
    segments ('$' :: (name ++ rest)) =
      (if name = [] then .lone else .bare name) :: segments rest := by
  obtain ⟨htake, hdrop⟩ := span_isNameChar hname hend
  -- the equation for an opening brace does not apply
  rw [segments.eq_3 _ (by rintro cs hcs; simp [hcs] at hbrace), htake, hdrop]
  cases name <;> rfl

/-- A segment that fits what follows it is the first one of the text. -/
theorem segments_spelling_append (h : segment.Fits rest) :
    -- one case for each kind of segment, which says what may follow it
    segments (segment.spelling ++ rest) = segment :: segments rest := by
  cases segment with
  | plain c =>
    have hc : c ≠ '$' := h
    simp [Segment.spelling, segments, hc]
  | lone => exact segments_bare h.1 (by simp) h.2
  | bare name =>
    obtain ⟨hne, hname, hend⟩ := h
    -- a name does not begin with a brace
    have hbrace : (name ++ rest).head? ≠ some '\x7b' := by
      obtain ⟨c, others, rfl⟩ := List.exists_cons_of_ne_nil hne
      intro hc
      have hchar := hname c List.mem_cons_self
      rw [Option.some.inj hc, isNameChar_brace] at hchar
      exact absurd hchar (by simp)
    rw [show (Segment.bare name).spelling ++ rest = '$' :: (name ++ rest) from rfl,
      segments_bare hbrace hname hend, if_neg hne]
  | braced name =>
    obtain ⟨htake, hdrop⟩ := span_brace h rest
    have hspelling : (Segment.braced name).spelling ++ rest =
        '$' :: '\x7b' :: (name ++ '\x7d' :: rest) := by
      simp [Segment.spelling]
    rw [hspelling, segments.eq_2]
    split <;> simp_all
  | unclosed after =>
    obtain ⟨hafter, rfl⟩ := h
    -- no brace closes the name, so the whole text is dropped
    have hdrop : after.dropWhile (· ≠ '\x7d') = [] := by
      rw [List.dropWhile_eq_nil_iff]
      intro c hc
      simpa using ne_of_mem_of_not_mem hc hafter
    rw [List.append_nil, Segment.spelling, segments.eq_2]
    split
    · simp [segments]
    · rename_i heq
      exact absurd (hdrop.symm.trans heq) (by simp)

theorem endsName_dropWhile (cs : List Char) : EndsName (cs.dropWhile isNameChar) := by
  -- dropping stops at a character that does not belong to a name
  intro c hc
  have hhead := List.head?_dropWhile_not isNameChar cs
  rw [hc] at hhead
  simpa using hhead

/-- Where a closing brace is found, it ends the name before it. -/
theorem eq_of_dropWhile_brace {c : Char} (h : cs.dropWhile (· ≠ '\x7d') = c :: rest) :
    cs = cs.takeWhile (· ≠ '\x7d') ++ '\x7d' :: rest := by
  have hc : c = '\x7d' := by
    have hhead := List.head?_dropWhile_not (· ≠ '\x7d') cs
    rw [h] at hhead
    simpa using hhead
  have hsplit := List.takeWhile_append_dropWhile (p := (· ≠ '\x7d')) (l := cs)
  rw [h, hc] at hsplit
  exact hsplit.symm

theorem decomposes_segments (cs : List Char) : Decomposes cs (segments cs) := by
  -- on the way the segments were read; each step takes the longest name there is
  fun_induction segments cs with
  | case1 => exact decomposes_nil.mpr rfl
  | case2 cs h =>
    have hcs : '\x7d' ∉ cs := by
      intro hmem
      simpa using List.dropWhile_eq_nil_iff.mp h _ hmem
    exact decomposes_cons.mpr ⟨[], by simp [Segment.spelling], ⟨hcs, rfl⟩, decomposes_nil.mpr rfl⟩
  | case3 cs c rest h ih =>
    refine decomposes_cons.mpr ⟨rest, ?_, fun hmem => ?_, ih⟩
    · simpa [Segment.spelling] using eq_of_dropWhile_brace h
    · simpa using List.mem_takeWhile_imp hmem
  | case4 cs hbrace h ih =>
    refine decomposes_cons.mpr ⟨cs, rfl, ⟨?_, ?_⟩, ih⟩
    · intro hhead
      obtain ⟨others, rfl⟩ := List.head?_eq_some_iff.mp hhead
      exact hbrace others rfl
    · -- no character of a name was taken, so that none was dropped
      have hdrop := List.takeWhile_append_dropWhile (p := isNameChar) (l := cs)
      rw [h, List.nil_append] at hdrop
      exact hdrop ▸ endsName_dropWhile cs
  | case5 cs hbrace h ih =>
    refine decomposes_cons.mpr ⟨cs.dropWhile isNameChar, ?_, ⟨h, ?_, endsName_dropWhile cs⟩, ih⟩
    · simp [Segment.spelling]
    · exact fun c hc => List.mem_takeWhile_imp hc
  | case6 c cs hbrace hc ih => exact decomposes_cons.mpr ⟨cs, rfl, hc, ih⟩

/-- A text is taken apart in one way only. -/
theorem decomposes_iff : Decomposes cs ss ↔ ss = segments cs := by
  constructor
  · intro h
    -- on the segments, of which the first one is determined by what it has to fit
    induction ss generalizing cs with
    | nil => rw [decomposes_nil.mp h, segments]
    | cons segment ss ih =>
      obtain ⟨rest, rfl, hfits, hrest⟩ := decomposes_cons.mp h
      rw [segments_spelling_append hfits, ← ih hrest]
  · rintro rfl
    exact decomposes_segments cs

/-! ## §2 What stands for a segment -/

namespace Environment

variable {env : Environment}

/-- The variable with a name is set. None has the empty name. -/
def IsSet (env : Environment) (name : String) : Prop :=
  name ≠ "" ∧ (env name).isSome

/-- What is put in place of a segment: the value of the variable that it refers to, or else the
segment as it is. -/
def replacement (env : Environment) (segment : Segment) : List Char :=
  match segment.reference? with
  | some name => ((env name).getD "").toList
  | none => segment.spelling

/-- There is nothing that a segment could stand for, for a reason. -/
inductive Offends (env : Environment) : Segment → ExpansionError → Prop
  | unset {segment : Segment} {name : String} (hname : segment.reference? = some name)
      (h : ¬ env.IsSet name) : Offends env segment (.unset name)
  | unclosed (rest : List Char) : Offends env (.unclosed rest) .unclosed

variable {name : String} {reason : ExpansionError}

theorem value_of_isSet (h : env.IsSet name) :
    env.value name.toList = .ok ((env name).getD "").toList := by
  obtain ⟨hne, hset⟩ := h
  obtain ⟨text, htext⟩ := Option.isSome_iff_exists.mp hset
  simp [value, hne, htext]

theorem value_of_not_isSet (h : ¬ env.IsSet name) :
    env.value name.toList = .error (.unset name) := by
  by_cases hne : name = ""
  · simp [value, hne]
  · have hnone : env name = none := Option.not_isSome_iff_eq_none.mp fun hset => h ⟨hne, hset⟩
    simp [value, hne, hnone]

theorem meaning_of_reference (h : segment.reference? = some name) :
    env.meaning segment = env.value name.toList := by
  -- a reference has a name in two kinds of segments, and both are looked up in one way
  cases segment <;> cases h <;> simp [meaning]

/-- A segment without a meaning is reported for the reason that it has none. -/
theorem meaning_of_offends (h : env.Offends segment reason) :
    env.meaning segment = .error reason := by
  cases h with
  | unset hname hunset => rw [meaning_of_reference hname, value_of_not_isSet hunset]
  | unclosed rest => rfl

theorem meaning_of_not_offends (h : ∀ reason, ¬ env.Offends segment reason) :
    env.meaning segment = .ok (env.replacement segment) := by
  cases hname : segment.reference? with
  | some name =>
    have hset : env.IsSet name := not_not.mp fun hunset => h _ (.unset hname hunset)
    rw [meaning_of_reference hname, value_of_isSet hset, replacement, hname]
  | none =>
    rw [replacement, hname]
    -- what is no reference stands for itself, unless it is an open brace
    cases segment with
    | plain c => rfl
    | lone => rfl
    | braced name => simp [Segment.reference?] at hname
    | bare name => simp [Segment.reference?] at hname
    | unclosed rest => exact absurd (.unclosed rest) (h _)

/-! ## §3 The first segment that offends -/

theorem meanings_of_not_offends (h : ∀ segment ∈ ss, ∀ reason, ¬ env.Offends segment reason) :
    env.meanings ss = .ok (ss.flatMap env.replacement) := by
  induction ss with
  | nil => rfl
  | cons segment ss ih =>
    rw [List.forall_mem_cons] at h
    rw [meanings, meaning_of_not_offends h.1, ih h.2, List.flatMap_cons]
    rfl

theorem meanings_of_offends {before after : List Segment}
    (hbefore : ∀ earlier ∈ before, ∀ reason, ¬ env.Offends earlier reason)
    (h : env.Offends segment reason) :
    env.meanings (before ++ segment :: after) = .error reason := by
  induction before with
  | nil =>
    -- what comes after the offender is not looked at
    rw [List.nil_append, meanings, meaning_of_offends h]
    rfl
  | cons first before ih =>
    rw [List.forall_mem_cons] at hbefore
    rw [List.cons_append, meanings, meaning_of_not_offends hbefore.1, ih hbefore.2]
    rfl

/-- Unless all segments have a meaning, one of them is the first without. -/
theorem exists_first_offender (h : ¬ ∀ segment ∈ ss, ∀ reason, ¬ env.Offends segment reason) :
    ∃ before segment after reason, ss = before ++ segment :: after ∧
      (∀ earlier ∈ before, ∀ reason, ¬ env.Offends earlier reason) ∧
      env.Offends segment reason := by
  induction ss with
  | nil => exact absurd (by simp) h
  -- either this segment is the first without a meaning or one of those behind it
  | cons segment ss ih =>
    by_cases hsegment : ∀ reason, ¬ env.Offends segment reason
    · have hrest : ¬ ∀ segment ∈ ss, ∀ reason, ¬ env.Offends segment reason :=
        fun hrest => h (List.forall_mem_cons.mpr ⟨hsegment, hrest⟩)
      obtain ⟨before, offender, after, reason, rfl, hbefore, hoffends⟩ := ih hrest
      exact ⟨segment :: before, offender, after, reason, rfl,
        List.forall_mem_cons.mpr ⟨hsegment, hbefore⟩, hoffends⟩
    · obtain ⟨reason, hreason⟩ := not_forall_not.mp hsegment
      exact ⟨[], segment, ss, reason, rfl, by simp, hreason⟩

/-- Nothing offends if no brace is left open and all variables are set. -/
theorem forall_not_offends_iff :
    (∀ segment ∈ ss, ∀ reason, ¬ env.Offends segment reason) ↔
      (∀ rest, .unclosed rest ∉ ss) ∧
        ∀ segment ∈ ss, ∀ name ∈ segment.reference?, env.IsSet name := by
  constructor
  · intro h
    refine ⟨fun rest hrest => h _ hrest _ (.unclosed rest), fun segment hmem name hname => ?_⟩
    exact not_not.mp fun hunset => h segment hmem _ (.unset hname hunset)
  · rintro ⟨hclosed, hset⟩ segment hmem reason (⟨hname, hunset⟩ | rest)
    · exact hunset (hset segment hmem _ hname)
    · exact hclosed rest hmem

end Environment

/-! ## §4 Settings -/

/-- What is said of a text that cannot be expanded. -/
def ExpansionError.report (text : String) : ExpansionError → SettingsError
  | unclosed => .invalid (.unclosedVariable text)
  | unset name => .missingVariable name

namespace Environment

variable {env : Environment} {text value : String} {reason : ExpansionError}

theorem expandSetting_of_ok {value : List Char}
    (h : env.meanings (segments text.toList) = .ok value) :
    env.expandSetting text = .ok (String.ofList value) := by
  simp [expandSetting, expand, h, Except.map]

theorem expandSetting_of_error (h : env.meanings (segments text.toList) = .error reason) :
    env.expandSetting text = .error (reason.report text) := by
  cases reason <;> simp [expandSetting, expand, h, Except.map, ExpansionError.report]

/-- A setting is expanded by one substitution from the left. Its text is taken apart in one way
only, as `ss` below, and there is a value if and only if no brace is left open and every variable
referred to is set. The value consists of the segments, with the values of variables in place of the
references. Otherwise the error is that of the first segment that offends: the name of the variable
which is not set, or the whole text if a brace is left open. -/
theorem expandSetting_substitutes (env : Environment) (text : String) :
    ∃ ss : List Segment,
      (∀ other, Decomposes text.toList other ↔ other = ss) ∧
      (∀ value, env.expandSetting text = .ok value ↔
        (∀ rest, .unclosed rest ∉ ss) ∧
        (∀ segment ∈ ss, ∀ name ∈ segment.reference?, env.IsSet name) ∧
        value = String.ofList (ss.flatMap env.replacement)) ∧
      ∀ e, env.expandSetting text = .error e ↔
        ∃ before segment after reason, ss = before ++ segment :: after ∧
          (∀ earlier ∈ before, ∀ reason, ¬ env.Offends earlier reason) ∧
          env.Offends segment reason ∧ e = reason.report text := by
  refine ⟨segments text.toList, fun _ => decomposes_iff, fun value => ?_, fun e => ?_⟩
  · rw [← and_assoc, ← forall_not_offends_iff]
    constructor
    · intro h
      -- with an offender among the segments there would be an error
      have hnone : ∀ segment ∈ segments text.toList, ∀ reason, ¬ env.Offends segment reason := by
        by_contra hsome
        obtain ⟨before, segment, after, reason, hss, hbefore, hoffends⟩ :=
          exists_first_offender hsome
        rw [expandSetting_of_error (hss ▸ meanings_of_offends hbefore hoffends)] at h
        exact absurd h (by simp)
      rw [expandSetting_of_ok (meanings_of_not_offends hnone)] at h
      exact ⟨hnone, (Except.ok.inj h).symm⟩
    · rintro ⟨hnone, rfl⟩
      exact expandSetting_of_ok (meanings_of_not_offends hnone)
  · constructor
    · intro h
      -- without an offender there would be a value
      by_cases hnone : ∀ segment ∈ segments text.toList, ∀ reason, ¬ env.Offends segment reason
      · rw [expandSetting_of_ok (meanings_of_not_offends hnone)] at h
        exact absurd h (by simp)
      · obtain ⟨before, segment, after, reason, hss, hbefore, hoffends⟩ :=
          exists_first_offender hnone
        rw [expandSetting_of_error (hss ▸ meanings_of_offends hbefore hoffends)] at h
        exact ⟨before, segment, after, reason, hss, hbefore, hoffends, (Except.error.inj h).symm⟩
    · rintro ⟨before, segment, after, reason, hss, hbefore, hoffends, rfl⟩
      exact expandSetting_of_error (hss ▸ meanings_of_offends hbefore hoffends)

end Environment

end EntityQuery
