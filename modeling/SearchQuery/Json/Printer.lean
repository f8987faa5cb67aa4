import SearchQuery.Json.Basic

namespace SearchQuery.Json

-- Where a text has white space. It never has any in an empty list or object.
structure Layout where
  line  : (depth : Nat) → List Char -- before an item at this depth, and before a closing bracket
  colon : List Char                 -- behind a colon

namespace Layout

def compact : Layout where
  line _ := []
  colon  := []

def pretty : Layout where
  line depth := '\n' :: List.replicate (2 * depth) ' '
  colon      := [' ']

end Layout

def quoted (literal : String) : List Char :=
  '"' :: literal.toList ++ ['"']

mutual

def print (l : Layout) (depth : Nat) : Json → List Char
  | null        => ['n', 'u', 'l', 'l']
  | bool true   => ['t', 'r', 'u', 'e']
  | bool false  => ['f', 'a', 'l', 's', 'e']
  | number n    => n.toList
  | string s    => quoted s
  | array []    => ['[', ']']
  | array (i :: is) =>
    '[' :: l.line (depth + 1) ++ print l (depth + 1) i ++ printItems l (depth + 1) is ++
      l.line depth ++ [']']
  | object [] => ['{', '}']
  | object (m :: ms) =>
    '{' :: l.line (depth + 1) ++ printMember l (depth + 1) m ++ printMembers l (depth + 1) ms ++
      l.line depth ++ ['}']

def printItems (l : Layout) (depth : Nat) : List Json → List Char
  | []      => []
  | i :: is => ',' :: l.line depth ++ print l depth i ++ printItems l depth is

def printMember (l : Layout) (depth : Nat) : String × Json → List Char
  | (name, value) => quoted name ++ ':' :: l.colon ++ print l depth value

def printMembers (l : Layout) (depth : Nat) : List (String × Json) → List Char
  | []      => []
  | m :: ms => ',' :: l.line depth ++ printMember l depth m ++ printMembers l depth ms

end

def render (l : Layout) (j : Json) : String :=
  String.ofList (j.print l 0)

def compact : Json → String :=
  render .compact

def pretty : Json → String :=
  render .pretty

end SearchQuery.Json
