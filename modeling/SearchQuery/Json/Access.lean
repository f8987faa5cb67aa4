import SearchQuery.Fields
import SearchQuery.Json.Basic

namespace SearchQuery.Json

def text? : Json → Option String
  | string literal => Literal.text? literal
  | _              => none

-- A number below `bound`. It has to be written as a plain integer: neither `-0` nor `1.0` is one.
def nat? (bound : Nat) : Json → Option Nat
  | number literal =>
    if literal.toList.all Char.isDigit then
      (some <| Nat.ofDigitChars 10 literal.toList 0).filter (· < bound)
    else
      none
  | _ => none

def list? (element? : Json → Option α) : Json → Option (List α)
  | array items => items.mapM element?
  | _           => none

-- The value of a member which may be left out, and which may be null instead.
def optional? (value? : Json → Option α) : Option Json → Option (Option α)
  | none | some null => some none
  | some j           => (value? j).map some

-- The value of a member which has a default if it is left out, but which may not be null.
def orElse? (default : α) (value? : Json → Option α) : Option Json → Option α
  | none   => some default
  | some j => value? j

-- The value of a member which has to be there.
def required? (value? : Json → Option α) (j : Option Json) : Option α :=
  j.bind value?

-- The members of an object, by the texts which their names denote.
def members? : Json → Option (List (String × Json))
  | object ms => ms.mapM fun (name, value) => return (← Literal.text? name, value)
  | _         => none

-- An object as a map. Of the members with one name the last one counts.
def fields? (value? : Json → Option α) (j : Json) : Option (Fields α) := do
  return .ofList <| ← (← j.members?).mapM fun (name, value) => return (name, ← value? value)

-- What a value gives for each of the members of a record. An object may have other members too, but
-- none of these twice. A list gives the members in order, and may stop early.
def record? (names : List String) (j : Json) : Option (List (Option Json)) :=
  match j with
  | array items =>
    if items.length ≤ names.length then
      some <| items.map some ++ List.replicate (names.length - items.length) none
    else
      none
  | j => do
    let ms ← j.members?
    if names.all fun name => ms.countP (·.1 = name) ≤ 1 then
      return names.map (List.lookup · ms)
    else
      none

-- The single member of an object which stands for one of several cases.
def case? (j : Json) : Option (String × Json) := do
  match ← j.members? with
  | [m] => some m
  | _   => none

end SearchQuery.Json
