namespace SearchQuery

-- What a text is escaped for. The three forms differ in the reserved characters they keep.
inductive Escaping
  | value      -- a value that is compared with a key
  | freeText   -- a free word, in which grouping survives
  | facetValue -- a value in the filter of a facet, in which phrases survive
  deriving DecidableEq, Repr

namespace Escaping

def isReserved (c : Char) : Bool :=
  c ∈ ['\\', '+', '-', '!', '(', ')', '{', '}', '[', ']', '^', '"', '~', '*', '?', '/', ':']

def keeps : Escaping → Char → Bool
  | value,      _ => false
  | freeText,   c => c = '(' || c = ')'
  | facetValue, c => c = '"'

-- The characters that get a backslash of their own.
def escapes (e : Escaping) (c : Char) : Bool :=
  isReserved c && !e.keeps c

-- Puts one backslash before each reserved entry, so an escaped text which is escaped again has its
-- backslashes escaped. A pair is one entry, and a third `&` or `|` in a row starts a new one.
def encode (e : Escaping) : List Char → List Char
  | []               => []
  | '&' :: '&' :: cs => '\\' :: '&' :: '&' :: e.encode cs
  | '|' :: '|' :: cs => '\\' :: '|' :: '|' :: e.encode cs
  | c :: cs          => if e.escapes c then '\\' :: c :: e.encode cs else c :: e.encode cs

def apply (e : Escaping) (s : String) : String :=
  String.ofList (e.encode s.toList)

@[simp]
theorem toList_apply (e : Escaping) : (e.apply s).toList = e.encode s.toList := by
  simp [apply]

@[simp]
theorem encode_nil (e : Escaping) : e.encode [] = [] :=
  rfl

theorem encode_pair (e : Escaping) (h : c = '&' ∨ c = '|') :
    e.encode (c :: c :: cs) = '\\' :: c :: c :: e.encode cs := by
  rcases h with rfl | rfl <;> simp [encode]

-- A character that starts no pair is escaped on its own.
theorem encode_cons (e : Escaping) (h : ¬((c = '&' ∨ c = '|') ∧ cs.head? = some c)) :
    e.encode (c :: cs) = (if e.escapes c then ['\\', c] else [c]) ++ e.encode cs := by
  rw [encode]
  · split <;> simp
  · rintro _ rfl rfl; simp at h
  · rintro _ rfl rfl; simp at h

end Escaping

end SearchQuery
