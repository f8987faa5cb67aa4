import SearchQuery.Cursor

namespace SearchQuery

open Text

-- Compares a key with a value.
inductive Operator
  | has | above | below | atLeast | atMost | exactly
  deriving DecidableEq, Repr

namespace Operator

def chars : Operator → List Char
  | has     => [':']
  | above   => [':', '>']
  | below   => [':', '<']
  | atLeast => [':', '>', '=']
  | atMost  => [':', '<', '=']
  | exactly => [':', '=']

def text (op : Operator) : String :=
  String.ofList op.chars

-- The longest operator which the text starts with.
def at? : List Char → Option Operator
  | ':' :: '>' :: '=' :: _ => some atLeast
  | ':' :: '<' :: '=' :: _ => some atMost
  | ':' :: '>' :: _        => some above
  | ':' :: '<' :: _        => some below
  | ':' :: '=' :: _        => some exactly
  | ':' :: _               => some has
  | _                      => none

theorem chars_ne_nil (op : Operator) : op.chars ≠ [] := by
  cases op <;> simp [chars]

theorem chars_prefix_of_at? (h : at? cs = some op) : op.chars <+: cs := by
  unfold at? at h
  split at h <;> simp at h <;> subst h <;> simp [chars]

theorem chars_length_le_of_at? (h : at? cs = some op) (o : Operator) (ho : o.chars <+: cs) :
    o.chars.length ≤ op.chars.length := by
  obtain ⟨t, rfl⟩ := ho
  unfold at? at h
  split at h <;> simp at h <;> subst h <;> cases o <;> grind [chars]

end Operator

-- Joins two items of a query.
inductive Connector
  | and | or
  deriving DecidableEq, Repr

namespace Connector

def chars : Connector → List Char
  | and => ['A', 'N', 'D']
  | or  => ['O', 'R']

def text (k : Connector) : String :=
  String.ofList k.chars

-- The start of the text which spells `k`, in any mix of upper and lower case. It has to be a whole
-- word: `andy` and `or:1` spell no connector.
def spelling? (k : Connector) (cs : List Char) : Option (List Char) :=
  let word := cs.take k.chars.length
  let next := cs.drop k.chars.length |>.head?
  if word.map Char.toUpper = k.chars ∧ next.all (fun c => isBlank c || c = '(' || c = ')')
  then some word
  else none

-- The connector which the text starts with, and its spelling there.
def at? (cs : List Char) : Option (Connector × List Char) :=
  [and, or].findSome? fun k => (k.spelling? cs).map (k, ·)

theorem spelling?_eq_some (k : Connector) (h : k.spelling? cs = some word) :
    word = cs.take k.chars.length ∧ word.map Char.toUpper = k.chars := by
  simp only [spelling?, Option.ite_none_right_eq_some, Option.some.injEq] at h
  exact ⟨h.2.symm, h.2 ▸ h.1.1⟩

theorem of_at? (h : at? cs = some (k, word)) : k.spelling? cs = some word := by
  have ⟨_, _, h⟩ := List.exists_of_findSome?_eq_some h
  have ⟨_, hs, h⟩ := Option.map_eq_some_iff.mp h
  cases h
  exact hs

theorem prefix_of_at? (h : at? cs = some (k, word)) : word <+: cs :=
  spelling?_eq_some k (of_at? h) |>.1 ▸ List.take_prefix _ _

theorem ne_nil_of_at? (h : at? cs = some (k, word)) : word ≠ [] := by
  rintro rfl
  have := spelling?_eq_some k (of_at? h) |>.2
  cases k <;> simp [chars] at this

end Connector

-- The smallest unit of text in a query.
inductive Atom
  | word (text : String)
  | phrase (literal text : String) -- as written, and without quotes and with escapes resolved
  deriving DecidableEq, Repr

-- The clauses which list their entries in brackets.
inductive Bracket
  | facets | nested
  deriving DecidableEq, Repr

namespace Bracket

def keyword : Bracket → List Char
  | facets => ['f', 'a', 'c', 'e', 't', 's', ':']
  | nested => ['n', 'e', 's', 't', 'e', 'd', ':']

theorem keyword_ne_nil (b : Bracket) : b.keyword ≠ [] := by
  cases b <;> simp [keyword]

-- A keyword opens a clause only if a bracket follows: `facets:x` is a comparison.
def opens (b : Bracket) (cs : List Char) : Bool :=
  b.keyword.isPrefixOf cs && ((cs.drop b.keyword.length).dropWhile isBlank).head? = some '['

def at? (cs : List Char) : Option Bracket :=
  [facets, nested].find? (·.opens cs)

end Bracket

-- The inside of a phrase, as written and with its escapes resolved, given the text behind the
-- opening quote. A backslash makes the next character literal.
def phraseBody? : List Char → Option (List Char × List Char)
  | []              => none
  | '"' :: _        => some ([], [])
  | '\\' :: c :: cs => (phraseBody? cs).map fun (body, text) => ('\\' :: c :: body, c :: text)
  | c :: cs         => (phraseBody? cs).map fun (body, text) => (c :: body, c :: text)

theorem prefix_of_phraseBody? (h : phraseBody? cs = some (body, text)) :
    body ++ ['"'] <+: cs := by
  fun_induction phraseBody? cs generalizing body text
  case case1 => simp at h
  case case2 => simp_all
  case case3 hi =>
    obtain ⟨⟨b, t⟩, hb, h⟩ := Option.map_eq_some_iff.mp h
    cases h
    simpa using hi hb
  case case4 hi =>
    obtain ⟨⟨b, t⟩, hb, h⟩ := Option.map_eq_some_iff.mp h
    cases h
    simpa using hi hb

namespace Cursor

def isKeyChar (c : Char) : Bool :=
  !isBlank c && c != ':' && c != '(' && c != ')'

def isWordChar (c : Char) : Bool :=
  !isBlank c && c != '(' && c != ')'

def isNameChar (c : Char) : Bool :=
  c.isAlphanum || c = '_' || c = '.'

def isTypeChar (c : Char) : Bool :=
  c.isAlphanum || c = '_' || c = '-'

-- Which token is looked for depends on what the grammar expects: a `:` within a word is text, a `:`
-- after a key an operator.
def key? (c : Cursor) : Option (String × Cursor) :=
  c.span? isKeyChar

def word? (c : Cursor) : Option (String × Cursor) :=
  c.span? isWordChar

-- Reads the dotted name of a facet or of a nested path.
def name? (c : Cursor) : Option (String × Cursor) :=
  c.span? isNameChar

def typeWord? (c : Cursor) : Option (String × Cursor) :=
  c.span? isTypeChar

def operator? (c : Cursor) : Option (Operator × Cursor) :=
  (Operator.at? c.rest).map fun op => (op, c.after op.chars)

def connector? (c : Cursor) : Option (Connector × Cursor) :=
  (Connector.at? c.rest).map fun (k, word) => (k, c.after word)

theorem lt_of_operator? {c : Cursor} (h : c.operator? = some (op, c')) : c < c' := by
  obtain ⟨op, ho, h⟩ := Option.map_eq_some_iff.mp h
  cases h
  exact lt_after (Operator.chars_prefix_of_at? ho) op.chars_ne_nil

theorem lt_of_connector? {c : Cursor} (h : c.connector? = some (k, c')) : c < c' := by
  obtain ⟨⟨k, word⟩, hk, h⟩ := Option.map_eq_some_iff.mp h
  cases h
  exact lt_after (Connector.prefix_of_at? hk) (Connector.ne_nil_of_at? hk)

end Cursor

end SearchQuery
