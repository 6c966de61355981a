import EntityQuery.Text.Alphanumeric

/-!
# Environment variables

A text may refer to variables of the environment, as `${name}` or `$name`. It is read once from the
left as a list of segments, and each reference is replaced by the value of its variable. Values are
copied as they are; a `$` in one of them refers to nothing.

Main statements: the segments of a text spell that text, so nothing but the references changes.
-/

namespace EntityQuery

/-- The values of variables by name. -/
abbrev Environment := String → Option String

/-! ## §1 Segments -/

/-- A part of a text that may refer to variables. -/
inductive Segment
  /-- A character other than `$`. -/
  | plain (c : Char)
  /-- A `$` that refers to nothing. -/
  | lone
  /-- A name in braces. It may be empty, and may hold any character but the closing brace. -/
  | braced (name : List Char)
  /-- A name without braces. -/
  | bare (name : List Char)
  /-- An opening brace that is never closed, and what follows it. -/
  | unclosed (rest : List Char)
  deriving DecidableEq, Repr

def Segment.spelling : Segment → List Char
  | plain c => [c]
  | lone => ['$']
  | braced name => '$' :: '\x7b' :: name ++ ['\x7d']
  | bare name => '$' :: name
  | unclosed rest => '$' :: '\x7b' :: rest

/-- The character may occur in a name without braces. -/
def isNameChar (c : Char) : Bool :=
  Text.isAlphanumeric c || c = '_'

/-- The segments of a text. -/
def segments : List Char → List Segment
  | [] => []
  | '$' :: '\x7b' :: cs =>
    match _h : cs.dropWhile (· ≠ '\x7d') with
    | [] => [.unclosed cs]
    | _ :: rest => .braced (cs.takeWhile (· ≠ '\x7d')) :: segments rest
  | '$' :: cs =>
    match cs.takeWhile isNameChar with
    | [] => .lone :: segments cs
    | name => .bare name :: segments (cs.dropWhile isNameChar)
  | c :: cs => .plain c :: segments cs
termination_by cs => cs.length
decreasing_by
  · have := (List.dropWhile_sublist (· ≠ '\x7d') (l := cs)).length_le
    simp_all
    omega
  · simp
  · have := (List.dropWhile_sublist isNameChar (l := cs)).length_le
    simp
    omega
  · simp

def Segment.reference? : Segment → Option String
  | braced name => some (String.ofList name)
  | bare name => some (String.ofList name)
  | _ => none

def references (text : String) : List String :=
  (segments text.toList).filterMap Segment.reference?

/-! ## §2 Values -/

/-- Why a text cannot be expanded. -/
inductive ExpansionError
  /-- An opening brace is never closed. -/
  | unclosed
  /-- A variable has no value. -/
  | unset (name : String)
  deriving DecidableEq, Repr

/-- The value of a variable. No variable has the empty name. -/
def Environment.value (env : Environment) (name : List Char) :
    Except ExpansionError (List Char) :=
  match if name.isEmpty then none else env (String.ofList name) with
  | some value => .ok value.toList
  | none => .error (.unset (String.ofList name))

/-- What a segment stands for. -/
def Environment.meaning (env : Environment) : Segment → Except ExpansionError (List Char)
  | .plain c => .ok [c]
  | .lone => .ok ['$']
  | .braced name => env.value name
  | .bare name => env.value name
  | .unclosed _ => .error .unclosed

/-- What segments stand for, or the error of the first one that has no meaning. -/
def Environment.meanings (env : Environment) :
    List Segment → Except ExpansionError (List Char)
  | [] => .ok []
  | segment :: rest => do
    let start ← env.meaning segment
    let others ← env.meanings rest
    return start ++ others

/-- A text with the references to variables replaced by their values. -/
def Environment.expand (env : Environment) (text : String) : Except ExpansionError String :=
  (env.meanings (segments text.toList)).map String.ofList

/-! ## §3 Nothing else changes -/

/-- The segments of a text spell it. -/
theorem flatMap_spelling_segments (cs : List Char) :
    (segments cs).flatMap Segment.spelling = cs := by
  fun_induction segments cs with
  | case1 => rfl
  | case2 cs h => simp [Segment.spelling]
  | case3 cs c rest h ih =>
    have hc : c = '\x7d' := by
      have hhead := List.head?_dropWhile_not (· ≠ '\x7d') cs
      rw [h] at hhead
      simpa using hhead
    have hsplit := List.takeWhile_append_dropWhile (p := (· ≠ '\x7d')) (l := cs)
    rw [h, hc] at hsplit
    simpa [Segment.spelling, ih] using hsplit
  | case4 cs _ h ih => simp [Segment.spelling, ih]
  | case5 cs _ _ ih => simp [Segment.spelling, ih]
  | case6 c cs _ _ ih => simp [Segment.spelling, ih]

end EntityQuery
