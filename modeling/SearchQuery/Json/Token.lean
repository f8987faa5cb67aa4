import SearchQuery.Json.Basic

namespace SearchQuery.Json

inductive Token
  | openBracket | closeBracket | openBrace | closeBrace | colon | comma
  | string (literal : String)
  | scalar (value : Json)

def isSpace (c : Char) : Bool :=
  c = ' ' || c = '\n' || c = '\t' || c = '\r'

def isNumberChar (c : Char) : Bool :=
  c.isDigit || c ∈ ['-', '+', '.', 'e', 'E']

def isExponent (cs : List Char) : Bool :=
  match cs with
  | [] => true
  | e :: cs =>
    let digits := match cs with
      | '+' :: cs | '-' :: cs | cs => cs
    (e = 'e' || e = 'E') && !digits.isEmpty && digits.all Char.isDigit

def isFraction (cs : List Char) : Bool :=
  match cs with
  | '.' :: cs => cs.head?.any Char.isDigit && isExponent (cs.dropWhile Char.isDigit)
  | cs        => isExponent cs

-- No number starts with a plus sign, and its integer part with a zero only if it is zero.
def isNumber (cs : List Char) : Bool :=
  let magnitude := match cs with
    | '-' :: cs | cs => cs
  match magnitude with
  | '0' :: cs => isFraction cs
  | c :: cs   => c.isDigit && isFraction (cs.dropWhile Char.isDigit)
  | []        => false

-- The part of a string literal in front of the next quote that is not escaped.
def body? : List Char → Option (List Char)
  | []              => none
  | '"' :: _        => some []
  | '\\' :: c :: cs => (body? cs).map ('\\' :: c :: ·)
  | c :: cs         => (body? cs).map (c :: ·)

-- The inside of a string literal, in which every escape is known.
def literal? (cs : List Char) : Option (List Char) :=
  (body? cs).filter fun body => (Literal.pieces? body).isSome

namespace Token

def word? : List Char → Option Json
  | ['n', 'u', 'l', 'l']      => some .null
  | ['t', 'r', 'u', 'e']      => some (.bool true)
  | ['f', 'a', 'l', 's', 'e'] => some (.bool false)
  | _                         => none

-- The token which the text starts with, and the text of it. Runs of letters and of the characters
-- that occur in numbers are never split.
def at? (cs : List Char) : Option (Token × List Char) :=
  match cs with
  | []      => none
  | '[' :: _ => some (openBracket, ['['])
  | ']' :: _ => some (closeBracket, [']'])
  | '{' :: _ => some (openBrace, ['{'])
  | '}' :: _ => some (closeBrace, ['}'])
  | ':' :: _ => some (colon, [':'])
  | ',' :: _ => some (comma, [','])
  | '"' :: cs => (literal? cs).map fun body => (string (String.ofList body), '"' :: body ++ ['"'])
  | c :: _ =>
    if isNumberChar c then
      let run := cs.takeWhile isNumberChar
      if isNumber run then some (scalar (.number (String.ofList run)), run) else none
    else
      let run := cs.takeWhile Char.isAlpha
      (word? run).map fun value => (scalar value, run)

theorem ne_nil_of_at? (h : at? cs = some (t, run)) : run ≠ [] := by
  rintro rfl
  unfold at? at h
  split at h <;> try simp at h
  split at h
  case isTrue => grind [isNumber]
  case isFalse =>
    obtain ⟨_, hw, h⟩ := Option.map_eq_some_iff.mp h
    simp only [Prod.mk.injEq] at h
    simp [h.2, word?] at hw

-- The tokens of a text, between which there may be white space.
def list? (cs : List Char) : Option (List Token) :=
  match cs with
  | []      => some []
  | c :: cs =>
    if isSpace c then list? cs
    else
      match _h : at? (c :: cs) with
      | none          => none
      | some (t, run) => (list? ((c :: cs).drop run.length)).map (t :: ·)
termination_by cs.length
decreasing_by
  · simp
  · have := List.length_pos_iff.mpr (ne_nil_of_at? _h)
    simp
    omega

end Token

end SearchQuery.Json
