import SearchQuery.Text.Blank
import SearchQuery.Text.Size

namespace SearchQuery

open Text

-- How many bytes of a text lie before a place in it, and the characters after it.
@[ext]
structure Cursor where
  offset : Nat
  rest   : List Char
  deriving DecidableEq, Repr

namespace Cursor

def start (text : List Char) : Cursor where
  offset := 0
  rest   := text

-- The cursor behind `passed`, which is the text at `c`.
def after (c : Cursor) (passed : List Char) : Cursor where
  offset := c.offset + size passed
  rest   := c.rest.drop passed.length

-- The place in `text` before which `offset` bytes lie. An offset inside of a character counts as
-- the place behind it, and one behind the end as the end.
def seek (text : List Char) (offset : Nat) : Cursor :=
  go 0 text
where
  go (before : Nat) : List Char → Cursor
    | []      => ⟨before, []⟩
    | c :: cs => if offset ≤ before then ⟨before, c :: cs⟩ else go (before + c.utf8Size) cs

-- From `c` to `c'` exactly the text `passed` is consumed.
structure Reads (c : Cursor) (passed : List Char) (c' : Cursor) : Prop where
  rest   : c.rest = passed ++ c'.rest
  offset : c'.offset = c.offset + size passed

theorem Reads.nil : Reads c [] c where
  rest   := rfl
  offset := rfl

theorem Reads.trans (h₁ : Reads c₁ r₁ c₂) (h₂ : Reads c₂ r₂ c₃) : Reads c₁ (r₁ ++ r₂) c₃ where
  rest   := by simp [h₁.rest, h₂.rest]
  offset := by simp [h₁.offset, h₂.offset, Nat.add_assoc]

theorem Reads.after (h : passed <+: c.rest) : Reads c passed (c.after passed) where
  rest   := by obtain ⟨t, h⟩ := h; simp [Cursor.after, ← h]
  offset := rfl

instance : LE Cursor where
  le c c' := ∃ passed, Reads c passed c'

instance : LT Cursor where
  lt c c' := ∃ passed, passed ≠ [] ∧ Reads c passed c'

variable {c c₁ c₂ c₃ : Cursor}

theorem le_refl : c ≤ c :=
  ⟨[], .nil⟩

theorem le_trans : c₁ ≤ c₂ → c₂ ≤ c₃ → c₁ ≤ c₃
  | ⟨_, h₁⟩, ⟨_, h₂⟩ => ⟨_, h₁.trans h₂⟩

theorem le_of_lt : c₁ < c₂ → c₁ ≤ c₂
  | ⟨r, _, h⟩ => ⟨r, h⟩

theorem lt_of_lt_of_le : c₁ < c₂ → c₂ ≤ c₃ → c₁ < c₃
  | ⟨_, n, h₁⟩, ⟨_, h₂⟩ => ⟨_, by simp [n], h₁.trans h₂⟩

theorem lt_of_le_of_lt : c₁ ≤ c₂ → c₂ < c₃ → c₁ < c₃
  | ⟨_, h₁⟩, ⟨_, n, h₂⟩ => ⟨_, by simp [n], h₁.trans h₂⟩

theorem length_lt_of_lt : c₁ < c₂ → c₂.rest.length < c₁.rest.length
  | ⟨_, n, h⟩ => by simp [h.rest, List.length_pos_iff.mpr n]

theorem le_after (h : passed <+: c.rest) : c ≤ c.after passed :=
  ⟨_, .after h⟩

theorem lt_after (h : passed <+: c.rest) (n : passed ≠ []) : c < c.after passed :=
  ⟨_, n, .after h⟩

def atEnd (c : Cursor) : Bool :=
  c.rest.isEmpty

def peek (c : Cursor) : Option Char :=
  c.rest.head?

-- The longest run at `c` of characters which satisfy `p`.
def run (c : Cursor) (p : Char → Bool) : List Char :=
  c.rest.takeWhile p

def atBlank (c : Cursor) : Bool :=
  c.peek.any isBlank

def skipBlank (c : Cursor) : Cursor :=
  c.after (c.run isBlank)

theorem le_skipBlank : c ≤ c.skipBlank :=
  le_after <| List.takeWhile_prefix _

-- The cursor behind `literal`, if the text at `c` starts with it.
def eat? (c : Cursor) (literal : List Char) : Option Cursor :=
  if literal.isPrefixOf c.rest then some (c.after literal) else none

theorem eat?_eq_some : c.eat? literal = some c' ↔ literal <+: c.rest ∧ c.after literal = c' := by
  simp [eat?]

theorem le_of_eat? (h : c.eat? literal = some c') : c ≤ c' :=
  have ⟨h, he⟩ := eat?_eq_some.mp h
  he ▸ le_after h

-- Reads the longest run of characters which satisfy `p`, if there is any.
def span? (c : Cursor) (p : Char → Bool) : Option (String × Cursor) :=
  let run := c.run p
  if run.isEmpty then none else some (String.ofList run, c.after run)

theorem lt_of_span? (h : c.span? p = some (s, c')) : c < c' := by
  simp [span?] at h
  exact h.2.2 ▸ lt_after (List.takeWhile_prefix _) h.1

end Cursor

end SearchQuery
