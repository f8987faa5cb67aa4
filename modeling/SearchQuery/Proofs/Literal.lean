import Mathlib
import SearchQuery.Json.Reader
import SearchQuery.Json.Access

namespace SearchQuery.Json

open Text

namespace Literal

variable {n : Nat} {c e : Char} {b cs r : List Char}

-- What is written for a character. Where there is no letter for it, that is its code unit.
def piece (c : Char) : Piece :=
  if shortEscapes.lookup c = none ∧ c.toNat < 0x20 then .unit c.toNat else .char c

theorem escaped?_of_lookup (h : shortEscapes.lookup c = some e) :
    escaped? e = some c ∧ e ≠ 'u' := by
  have ⟨l₁, l₂, hl, _⟩ := List.lookup_eq_some_iff.mp h
  have hm : (c, e) ∈ shortEscapes := by simp [hl]
  have he : ∀ p ∈ shortEscapes, escaped? p.2 = some p.1 ∧ p.2 ≠ 'u' := by decide
  exact he _ hm

theorem hexNumber?_code (h : n < 0x20) :
    hexNumber? ['0', '0', hexDigit (n / 16), hexDigit n] = some n := by
  have h0 : hexValue? '0' = some 0 := by decide
  simp [hexNumber?, h0, hexValue?_hexDigit]
  omega

theorem pieces?_escapeChar (c : Char) :
    pieces? (escapeChar c ++ cs) = (pieces? cs).map (piece c :: ·) := by
  unfold escapeChar piece
  split
  case h_1 e he =>
    have ⟨hc, hu⟩ := escaped?_of_lookup he
    cases h : pieces? cs <;> simp [pieces?, hu, hc, h, he]
  case h_2 hn =>
    split
    case isTrue hc =>
      cases h : pieces? cs <;> simp [pieces?, hexNumber?_code hc, h, hn, hc]
    case isFalse hc =>
      have hq : c ≠ '\\' ∧ c ≠ '"' := by
        constructor
        all_goals
          intro h
          simp [h, shortEscapes] at hn
      cases h : pieces? cs <;> simp [pieces?, h, hn, hc, hq]

theorem pieces?_flatMap : pieces? (cs.flatMap escapeChar) = some (cs.map piece) := by
  induction cs
  case nil => rfl
  case cons c cs hi => simp [pieces?_escapeChar, hi]

-- A control character is no half of a surrogate pair.
theorem chars?_unit (h : n < 0x20) (ps : List Piece) :
    chars? (.unit n :: ps) = (chars? ps).map (Char.ofNat n :: ·) := by
  have hh : isHighSurrogate n = false := by simp [isHighSurrogate]; omega
  have hl : isLowSurrogate n = false := by simp [isLowSurrogate]; omega
  cases ps
  case nil => simp [chars?, hh, hl]
  case cons p ps => cases p <;> simp [chars?, hh, hl]

theorem chars?_map_piece : chars? (cs.map piece) = some cs := by
  induction cs
  case nil => rfl
  case cons c cs hi =>
    rw [List.map_cons]
    nth_rewrite 1 [piece]
    split
    case isTrue h => simp [chars?_unit h.2, hi]
    case isFalse => simp [chars?, hi]

@[simp]
theorem text?_ofText (s : String) : text? (ofText s) = some s := by
  simp [text?, ofText, pieces?_flatMap, chars?_map_piece]

-- A literal in which every escape is known.
def Valid (literal : String) : Prop :=
  (pieces? literal.toList).isSome

theorem valid_ofText (s : String) : Valid (ofText s) := by
  simp [Valid, ofText, pieces?_flatMap]

theorem ne_quote_of_hexValue? (h : hexValue? c = some n) : c ≠ '\\' ∧ c ≠ '"' := by
  constructor
  all_goals
    rintro rfl
    simp [hexValue?] at h

theorem exists_hexValue? (h : hexNumber? cs = some n) (hc : c ∈ cs) : ∃ v, hexValue? c = some v := by
  rw [hexNumber?] at h
  generalize 0 = m at h
  induction cs generalizing m
  case nil => simp at hc
  case cons d ds hi =>
    rw [List.foldlM_cons] at h
    have ⟨k, hk, h⟩ := Option.bind_eq_some_iff.mp h
    have ⟨v, hv, _⟩ := Option.map_eq_some_iff.mp hk
    cases List.mem_cons.mp hc
    case inl hd => exact ⟨v, hd ▸ hv⟩
    case inr hd => exact hi hd k h

theorem ne_quote_of_hexNumber? (h : hexNumber? cs = some n) (hc : c ∈ cs) : c ≠ '\\' ∧ c ≠ '"' :=
  have ⟨_, hv⟩ := exists_hexValue? h hc
  ne_quote_of_hexValue? hv

end Literal

open Literal

variable {n : Nat} {cs b r : List Char}

theorem body?_cons (h : c ≠ '\\' ∧ c ≠ '"') : body? (c :: cs) = (body? cs).map (c :: ·) := by
  rw [body?] <;> simp_all

-- No piece of a literal ends it.
theorem body?_append (h : (pieces? cs).isSome) : body? (cs ++ '"' :: r) = some cs := by
  fun_induction pieces? cs
  case case1 => rfl
  case case2 a b c d cs hi =>
    have ⟨ps, h⟩ := Option.isSome_iff_exists.mp h
    have ⟨n, hn, h⟩ := Option.bind_eq_some_iff.mp h
    have hp : (pieces? cs).isSome := by cases hp : pieces? cs <;> simp_all
    have hd := fun {c} => ne_quote_of_hexNumber? (c := c) hn
    simp [body?, body?_cons (hd _), hi hp]
  case case3 e cs _ hi =>
    have hp : (pieces? cs).isSome := by cases hp : pieces? cs <;> simp_all
    simp [body?, hi hp]
  case case4 h => simp at h
  case case5 c cs _ _ hc hi =>
    have hp : (pieces? cs).isSome := by cases hp : pieces? cs <;> simp_all
    simp only [not_or] at hc
    simp [body?_cons ⟨hc.1, hc.2.1⟩, hi hp]

theorem literal?_append (h : (pieces? cs).isSome) : literal? (cs ++ '"' :: r) = some cs := by
  simp [literal?, body?_append h, h]

theorem isNumberChar_of_isDigit (h : c.isDigit) : isNumberChar c := by
  simp [isNumberChar, h]

-- The digits of a number do not start with a zero, unless the number is zero.
theorem head_toDigits (h : 0 < n) : ∃ c cs, Nat.toDigits 10 n = c :: cs ∧ c ≠ '0' := by
  induction n using Nat.strong_induction_on
  case h n hi =>
    by_cases hn : n < 10
    case pos =>
      refine ⟨n.digitChar, [], Nat.toDigits_of_lt_base hn, ?_⟩
      intro hc
      have hv : ∀ d < 10, 0 < d → Nat.digitChar d ≠ '0' := by decide
      exact hv n hn h hc
    case neg =>
      have ⟨c, cs, hd, hc⟩ := hi (n / 10) (by omega) (by omega)
      rw [Nat.toDigits_of_base_le (by decide) (by omega), hd]
      exact ⟨c, _, rfl, hc⟩

theorem isNumber_of_isDigit (hc : c ≠ '0') (h : ∀ d ∈ c :: cs, d.isDigit) :
    isNumber (c :: cs) := by
  have hm : c ≠ '-' := by
    rintro rfl
    exact absurd (h '-' (by simp)) (by decide)
  have hd : cs.dropWhile Char.isDigit = [] := by
    simp only [List.dropWhile_eq_nil_iff]
    exact fun d hd => h d (by simp [hd])
  rw [isNumber]
  · simp [h c, hd, isFraction, isExponent]
  · simp [hc]
  · simp [hm]

theorem isNumber_toDigits (n : Nat) : isNumber (Nat.toDigits 10 n) := by
  rcases n.eq_zero_or_pos with rfl | hn
  case inl => decide
  case inr =>
    have ⟨c, cs, hd, hc⟩ := head_toDigits hn
    rw [hd]
    apply isNumber_of_isDigit hc
    intro d hm
    exact Nat.isDigit_of_mem_toDigits (by decide) (by decide) (hd ▸ hm)

theorem nat?_nat (h : n < bound) : nat? bound (nat n) = some n := by
  have hd : (Nat.toDigits 10 n).all Char.isDigit := by
    rw [List.all_eq_true]
    exact fun c => Nat.isDigit_of_mem_toDigits (by decide) (by decide)
  simp [nat?, nat, hd, Nat.ofDigitChars_ten_toDigits, h]

end SearchQuery.Json
