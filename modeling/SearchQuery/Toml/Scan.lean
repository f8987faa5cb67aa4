namespace SearchQuery.Toml

-- A scanner which fails consumes nothing.
abbrev Scan := StateT (List Char) Option

namespace Scan

variable {α β : Type}

def literal (l : List Char) : Scan Unit := fun cs =>
  if l.isPrefixOf cs then some ((), cs.drop l.length) else none

def char (p : Char → Bool) : Scan Char
  | c :: cs => if p c then some (c, cs) else none
  | []      => none

-- The longest run of characters which satisfy `p`.
def run (p : Char → Bool) : Scan (List Char) := fun cs =>
  some (cs.takeWhile p, cs.dropWhile p)

-- A run which is not empty.
def run1 (p : Char → Bool) : Scan (List Char) := do
  return (← char p) :: (← run p)

def count (n : Nat) (p : Char → Bool) : Scan (List Char) := fun cs =>
  let front := cs.take n
  if front.length = n && front.all p then some (front, cs.drop n) else none

def atEnd : Scan Unit
  | []     => some ((), [])
  | _ :: _ => none

-- The text which a scanner consumes.
def consumed (scan : Scan α) : Scan (List Char) := fun cs => do
  let (_, rest) ← scan cs
  return (cs.take (cs.length - rest.length), rest)

def ofOption (a : Option α) : Scan α :=
  StateT.lift a

-- Repeats a scanner for as long as it succeeds and consumes something.
def many (scan : Scan α) : Scan (List α) := fun cs =>
  some (go cs)
where
  go (cs : List Char) : List α × List Char :=
    match scan cs with
    | none           => ([], cs)
    | some (a, rest) =>
      if rest.length < cs.length then
        let (as, rest) := go rest
        (a :: as, rest)
      else
        ([], cs)
  termination_by cs.length

def sepBy1 (scan : Scan α) (separator : Scan β) : Scan (List α) := do
  return (← scan) :: (← many (separator *> scan))

def sepBy (scan : Scan α) (separator : Scan β) : Scan (List α) :=
  sepBy1 scan separator <|> pure []

end Scan

end SearchQuery.Toml
