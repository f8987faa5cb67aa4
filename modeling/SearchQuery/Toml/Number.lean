import SearchQuery.Text.Hex
import SearchQuery.Toml.Basic
import SearchQuery.Toml.Scan

namespace SearchQuery.Toml.Scan

def isSign (c : Char) : Bool :=
  c = '+' || c = '-'

-- Digits, between which there may be single underscores. These are dropped.
def digits (p : Char → Bool) : Scan (List Char) := do
  return (← run1 p) ++ (← many (literal ['_'] *> run1 p)).flatten

-- A decimal number starts with zero only if it is zero.
def decimal : Scan (List Char) :=
  (do literal ['0']; return ['0']) <|> digits Char.isDigit

structure Signed where
  negative : Bool
  digits   : List Char

def signed : Scan Signed := do
  let sign ← optional (char isSign)
  return { negative := sign = some '-', digits := ← decimal }

-- Integers are those which fit into 64 bits.
def integerOf? (n : Int) : Option Int :=
  if Int64.minValue.toInt ≤ n ∧ n ≤ Int64.maxValue.toInt then some n else none

def decimalInteger : Scan Int := do
  let s ← signed
  let n : Int := Nat.ofDigitChars 10 s.digits 0
  ofOption <| integerOf? (if s.negative then -n else n)

def radixInteger (mark : Char) (radix : Nat) : Scan Int := do
  literal ['0', mark]
  let ds ← digits fun c => (Text.hexValue? c).any (· < radix)
  let n := ds.foldl (fun n c => radix * n + (Text.hexValue? c).getD 0) 0
  ofOption <| integerOf? n

def integer : Scan Int :=
  radixInteger 'x' 16 <|> radixInteger 'o' 8 <|> radixInteger 'b' 2 <|> decimalInteger

structure Exponent where
  negative : Bool
  digits   : List Char

def exponent : Scan Exponent := do
  let _ ← char fun c => c = 'e' || c = 'E'
  let sign ← optional (char isSign)
  return { negative := sign = some '-', digits := ← digits Char.isDigit }

def fraction : Scan (List Char) := do
  literal ['.']
  digits Char.isDigit

-- Tells if `mantissa * 10 ^ exponent` is above every finite double, once it is rounded to the
-- nearest one. The size of the number alone decides unless it is close to the bound.
def overflows (mantissa : Nat) (exponent : Int) : Bool :=
  let magnitude := (Nat.toDigits 10 mantissa).length + exponent
  if mantissa = 0 ∨ magnitude < 309 then false
  else if magnitude > 310 then true
  else
    let bound := 1 <<< 1024 - 1 <<< 970
    let scale := Nat.pow 10 exponent.natAbs
    if exponent < 0 then bound * scale ≤ mantissa else bound ≤ mantissa * scale

def finiteFloat : Scan Unit := do
  let s ← signed
  let (fraction, exponent) ←
    (do return ([], some (← exponent))) <|> (do return (← fraction, ← optional exponent))
  let power : Int := match exponent with
    | none   => 0
    | some e =>
      let n : Int := Nat.ofDigitChars 10 e.digits 0
      if e.negative then -n else n
  let mantissa := Nat.ofDigitChars 10 (s.digits ++ fraction) 0
  if !s.negative && overflows mantissa (power - fraction.length) then
    failure

def specialFloat : Scan Unit := do
  let _ ← optional (char isSign)
  literal ['i', 'n', 'f'] <|> literal ['n', 'a', 'n']

def float : Scan String := do
  return String.ofList (← consumed (finiteFloat <|> specialFloat))

-- A number of `n` digits in a range.
def field (n lo hi : Nat) : Scan Nat := do
  let v := Nat.ofDigitChars 10 (← count n Char.isDigit) 0
  if lo ≤ v ∧ v ≤ hi then return v else failure

def isLeapYear (year : Nat) : Bool :=
  year % 4 = 0 && (year % 100 ≠ 0 || year % 400 = 0)

def daysIn (year month : Nat) : Nat :=
  if month = 2 then (if isLeapYear year then 29 else 28)
  else if month ∈ [4, 6, 9, 11] then 30
  else 31

def date : Scan Unit := do
  let year ← field 4 0 9999
  literal ['-']
  let month ← field 2 1 12
  literal ['-']
  let _ ← field 2 1 (daysIn year month)

-- The last minute of a day may have a leap second.
def time : Scan Unit := do
  let _ ← field 2 0 23
  literal [':']
  let _ ← field 2 0 59
  literal [':']
  let _ ← field 2 0 60
  let _ ← optional (literal ['.'] *> run1 Char.isDigit)

def zone : Scan Unit := do
  let c ← char fun c => c = 'Z' || c = 'z' || isSign c
  if isSign c then
    let _ ← field 2 0 23
    literal [':']
    let _ ← field 2 0 59

def dateTime : Scan String := do
  return String.ofList (← consumed (dated <|> time))
where
  dated : Scan Unit := do
    date
    let _ ← optional do
      let _ ← char fun c => c = 'T' || c = 't' || c = ' '
      time
      optional zone

end SearchQuery.Toml.Scan
