import Mathlib
import SearchQuery.Query

namespace SearchQuery

namespace Text

-- A run of characters which satisfy `p` ends before `r`.
def Stops (p : Char → Bool) (r : List Char) : Prop :=
  ∀ c ∈ r.head?, p c = false

def IsBlank (b : List Char) : Prop :=
  ∀ c ∈ b, isBlank c

variable {p : Char → Bool} {u r t : List Char}

@[simp]
theorem stops_nil : Stops p [] := by
  simp [Stops]

@[simp]
theorem stops_cons : Stops p (c :: r) ↔ p c = false := by
  simp [Stops]

instance : Decidable (Stops p r) :=
  match r with
  | []     => .isTrue stops_nil
  | _ :: _ => decidable_of_iff _ stops_cons.symm

theorem stops_append (h : u ≠ []) : Stops p (u ++ r) ↔ Stops p u := by
  cases u <;> simp_all

theorem Stops.append_right (h : Stops p u) (n : u ≠ []) : Stops p (u ++ r) :=
  stops_append n |>.mpr h

-- How a text starts does not change when it goes on.
theorem head?_extend (n : r ≠ []) : (u ++ (r ++ t)).head? = (u ++ r).head? := by
  rw [← List.append_assoc, List.head?_append_of_ne_nil _ (by simp [n])]

theorem Stops.extend (h : Stops p (u ++ r)) (n : r ≠ []) : Stops p (u ++ (r ++ t)) := by
  unfold Stops
  rwa [head?_extend n]

theorem Stops.of_append (h : Stops p (u ++ r)) : Stops p u := by
  cases u <;> simp_all

theorem Stops.mono (h : Stops p r) (hq : ∀ c, q c → p c) : Stops q r := by
  intro c hc
  have := h c hc
  grind

theorem takeWhile_append (hu : ∀ c ∈ u, p c) (hr : Stops p r) : (u ++ r).takeWhile p = u := by
  rw [List.takeWhile_append_of_pos hu]
  cases r <;> simp_all

theorem dropWhile_append (hu : ∀ c ∈ u, p c) (hr : Stops p r) : (u ++ r).dropWhile p = r := by
  rw [List.dropWhile_append_of_pos hu]
  cases r <;> simp_all

theorem exists_span (p : Char → Bool) (cs : List Char) :
    ∃ u r, cs = u ++ r ∧ (∀ c ∈ u, p c) ∧ Stops p r := by
  refine ⟨cs.takeWhile p, cs.dropWhile p, by simp, fun _ => List.mem_takeWhile_imp, ?_⟩
  intro c hc
  have := List.head?_dropWhile_not p cs
  simp_all

theorem exists_span_cons (h : p c) (cs : List Char) :
    ∃ u r, cs = u ++ r ∧ (∀ d ∈ c :: u, p d) ∧ Stops p r := by
  have ⟨u, r, he, hu, hr⟩ := exists_span p cs
  exact ⟨u, r, he, by simpa [h] using hu, hr⟩

theorem not_prefix_of_head? (h : r.head? ≠ some c) : ¬[c] <+: r := by
  intro ⟨t, ht⟩
  simp [← ht] at h

-- A place in a text is known by the number of bytes before it.
theorem eq_of_size_eq {v t : List Char} (h : u ++ r = v ++ t) (hs : size u = size v) : u = v := by
  induction u generalizing v
  case nil => exact (size_eq_zero_iff.mp hs.symm).symm
  case cons c u hi =>
    cases v
    case nil => exact absurd (size_eq_zero_iff.mp hs) (by simp)
    case cons d v =>
      simp only [List.cons_append, List.cons.injEq] at h
      have ⟨hc, h⟩ := h
      simp only [hc, size_cons, Nat.add_left_cancel_iff] at hs
      rw [hc, hi h hs]

theorem isBlank_nil : IsBlank [] := by
  simp [IsBlank]

theorem isBlank_space : IsBlank [' '] := by
  simp [IsBlank, isBlank, blankRanges]

theorem isBlank_append : IsBlank (u ++ r) ↔ IsBlank u ∧ IsBlank r := by
  simp [IsBlank, or_imp, forall_and]

end Text

open Text

namespace Cursor

theorem isWordChar_of_isKeyChar (h : isKeyChar c) : isWordChar c := by
  simp_all [isKeyChar, isWordChar]

theorem isWordChar_eq_false : isWordChar c = false ↔ isBlank c ∨ c = '(' ∨ c = ')' := by
  simp [isWordChar]
  grind

theorem isKeyChar_of_isAlpha {c : Char} (h : c.isAlpha) : isKeyChar c := by
  simp [Char.isAlpha, Char.isUpper, Char.isLower, UInt32.le_iff_toNat_le] at h
  simp [isKeyChar, isBlank, blankRanges]
  refine ⟨⟨⟨by omega, ?_⟩, ?_⟩, ?_⟩
  all_goals
    intro he
    simp [he] at h

theorem utf8Size_of_isAlpha {c : Char} (h : c.isAlpha) : c.utf8Size = 1 := by
  simp [Char.isAlpha, Char.isUpper, Char.isLower, UInt32.le_iff_toNat_le] at h
  rw [Char.utf8Size_eq_one_iff, UInt32.le_iff_toNat_le]
  simp
  omega

-- A letter is a single byte.
theorem size_eq_length {u : List Char} (h : ∀ c ∈ u, c.isAlpha) : size u = u.length := by
  induction u
  case nil => rfl
  case cons c u hi =>
    have hc : c.utf8Size = 1 := utf8Size_of_isAlpha (h c (by simp))
    rw [size_cons, hc, hi fun d hd => h d (by simp [hd]), List.length_cons, Nat.add_comm]

theorem isAlpha_of_isUpper_toUpper {c : Char} (h : c.toUpper.isUpper) : c.isAlpha := by
  unfold Char.toUpper at h
  split at h
  case isTrue hl =>
    have hl : c.isLower := by simpa [Char.isLower] using hl
    simp [Char.isAlpha, hl]
  case isFalse => simp [Char.isAlpha, h]

theorem not_isBlank_of_isWordChar (h : isWordChar c) : isBlank c = false := by
  simp_all [isWordChar]

theorem stops_of_isBlank (h : IsBlank b) (n : b ≠ []) : Stops isWordChar (b ++ r) := by
  cases b
  case nil => contradiction
  case cons c b => simp [isWordChar, h c]

theorem reads_skipBlank {c : Cursor} (hc : c.rest = b ++ r) (hb : IsBlank b) (hr : Stops isBlank r) :
    Reads c b c.skipBlank := by
  have hw : c.run isBlank = b := by rw [run, hc, takeWhile_append hb hr]
  rw [skipBlank, hw]
  exact .after (by simp [hc])

theorem rest_skipBlank {c : Cursor} (hc : c.rest = b ++ r) (hb : IsBlank b) (hr : Stops isBlank r) :
    c.skipBlank.rest = r :=
  List.append_cancel_left <| (reads_skipBlank hc hb hr).rest.symm.trans hc

theorem not_isAlphanum_of_isBlank {c : Char} (h : isBlank c) : c.isAlphanum = false := by
  simp [isBlank, blankRanges] at h
  simp [Char.isAlphanum, Char.isAlpha, Char.isUpper, Char.isLower, Char.isDigit,
    UInt32.le_iff_toNat_le]
  omega

theorem not_isNameChar_of_isBlank (h : isBlank c) : isNameChar c = false := by
  have hn : c ≠ '_' ∧ c ≠ '.' := by
    constructor
    all_goals
      intro hc
      simp [hc, isBlank, blankRanges] at h
  simp [isNameChar, not_isAlphanum_of_isBlank h, hn]

theorem not_isTypeChar_of_isBlank (h : isBlank c) : isTypeChar c = false := by
  have hn : c ≠ '_' ∧ c ≠ '-' := by
    constructor
    all_goals
      intro hc
      simp [hc, isBlank, blankRanges] at h
  simp [isTypeChar, not_isAlphanum_of_isBlank h, hn]

theorem stops_name (hb : IsBlank b) (hr : Stops isNameChar r) : Stops isNameChar (b ++ r) := by
  cases b
  case nil => exact hr
  case cons c b => simpa using not_isNameChar_of_isBlank (hb c (by simp))

theorem stops_name_of_open (h : r.head? = some '(') : Stops isNameChar r := by
  intro c hc
  simp [h] at hc
  simp [← hc, isNameChar]

theorem stops_of_open (h : r.head? = some '(') : Stops isBlank r := by
  intro c hc
  simp [h] at hc
  simp [← hc, isBlank, blankRanges]

end Cursor

open Cursor

namespace Operator

variable {op : Operator} {cs ds : List Char}

-- `op` is the longest operator which `op` and `cs` together start with.
def Longest (op : Operator) (cs : List Char) : Prop :=
  ∀ o : Operator, o.chars <+: op.chars ++ cs → o.chars.length ≤ op.chars.length

theorem chars_eq_cons (op : Operator) : ∃ t, op.chars = ':' :: t := by
  cases op <;> simp [chars]

theorem chars_injective (h : chars op = chars o) : op = o := by
  cases op <;> cases o <;> simp_all [chars]

theorem at?_append_isSome (op : Operator) (cs : List Char) : (at? (op.chars ++ cs)).isSome := by
  obtain ⟨t, ht⟩ := op.chars_eq_cons
  rw [ht]
  unfold at?
  split <;> simp_all

theorem at?_eq_some_iff : at? (op.chars ++ cs) = some op ↔ op.Longest cs := by
  constructor
  case mp => exact fun h o => chars_length_le_of_at? h o
  case mpr =>
    intro h
    obtain ⟨o, ho⟩ := Option.isSome_iff_exists.mp (at?_append_isSome op cs)
    have hp := chars_prefix_of_at? ho
    have hl := chars_length_le_of_at? ho op (List.prefix_append ..)
    have he := List.prefix_of_prefix_length_le (List.prefix_append ..) hp hl
    rw [ho, chars_injective (he.eq_of_length_le (h o hp))]

theorem exists_longest (cs : List Char) :
    ∃ (op : Operator) (ds : List Char), ':' :: cs = op.chars ++ ds ∧ op.Longest ds := by
  have ⟨op, ho⟩ := Option.isSome_iff_exists.mp (at?_append_isSome has cs)
  have ⟨ds, hd⟩ := chars_prefix_of_at? ho
  refine ⟨op, ds, hd.symm, at?_eq_some_iff.mp ?_⟩
  rw [hd, ho]

-- Which operator is the longest one depends on the next character alone.
theorem Longest.congr (hl : op.Longest cs) (h : cs.head? = ds.head?) : op.Longest ds := by
  intro o ho
  have ho' := hl o
  have ha := hl above
  have hb := hl below
  cases op <;> cases o <;> cases cs <;> cases ds <;> simp_all [chars]

-- Only three characters can be a part of a longer operator.
theorem Longest.of_head? (h : cs.head? = some c) (hc : c ∉ ['>', '<', '=']) : op.Longest cs := by
  intro o ho
  have ⟨t, ht⟩ := List.head?_eq_some_iff.mp h
  subst ht
  simp at hc
  cases op <;> cases o <;> simp [chars] at ho ⊢ <;> grind

-- Neither a blank nor a bracket is a part of an operator.
theorem eq_has_of_bracket (hv : IsBlank v) (hc : isBlank c = false)
    (h : op.chars ++ c :: cs = ':' :: (v ++ '[' :: ds)) : op = has ∧ c = '[' := by
  cases v
  case nil => cases op <;> simp_all [chars]
  case cons d v =>
    have hd := hv d (by simp)
    cases op
    case has =>
      simp [chars] at h
      simp [h, hd] at hc
    all_goals
      simp [chars] at h
      simp [← h, isBlank, blankRanges] at hd

end Operator

namespace Connector

variable {k : Connector} {w cs r : List Char}

-- The text `w` spells `k`, in any mix of upper and lower case.
def Spelling (k : Connector) (w : List Char) : Prop :=
  w.map Char.toUpper = k.chars

theorem Spelling.length_eq (h : k.Spelling w) : w.length = k.chars.length := by
  rw [← h, List.length_map]

theorem Spelling.isAlpha (h : k.Spelling w) : ∀ c ∈ w, c.isAlpha := by
  intro c hc
  have hm : c.toUpper ∈ k.chars := h ▸ List.mem_map_of_mem hc
  have hu : ∀ d ∈ k.chars, d.isUpper := by cases k <;> simp [chars, Char.isUpper]
  exact isAlpha_of_isUpper_toUpper (hu _ hm)

theorem Spelling.size_eq (h : k.Spelling w) : size w = k.chars.length :=
  (size_eq_length h.isAlpha).trans h.length_eq

theorem Spelling.isKeyChar (h : k.Spelling w) : ∀ c ∈ w, isKeyChar c :=
  fun c hc => isKeyChar_of_isAlpha (h.isAlpha c hc)

theorem Spelling.ne_nil (h : k.Spelling w) : w ≠ [] := by
  intro he
  subst he
  cases k <;> simp [Spelling, chars] at h

theorem spelling?_eq_some_iff :
    k.spelling? cs = some w ↔ k.Spelling w ∧ ∃ r, cs = w ++ r ∧ Stops isWordChar r := by
  constructor
  case mp =>
    intro h
    simp only [spelling?, Option.ite_none_right_eq_some, Option.some.injEq] at h
    obtain ⟨⟨hw, hr⟩, he⟩ := h
    refine ⟨he ▸ hw, cs.drop k.chars.length, by simp [← he], ?_⟩
    intro c hc
    rw [hc] at hr
    simp_all [isWordChar_eq_false, or_assoc]
  case mpr =>
    rintro ⟨hw, r, he, hr⟩
    subst he
    have hl := hw.length_eq
    have hn : r.head?.all fun c => isBlank c || c = '(' || c = ')' := by
      cases r <;> simp_all [isWordChar_eq_false, or_assoc]
    simp only [spelling?, ← hl, List.take_left, List.drop_left, hn, and_true]
    exact if_pos hw

theorem at?_eq_some_iff :
    at? cs = some (k, w) ↔ k.Spelling w ∧ ∃ r, cs = w ++ r ∧ Stops isWordChar r := by
  rw [← spelling?_eq_some_iff]
  constructor
  case mp => exact of_at?
  case mpr =>
    intro h
    cases k
    case and => simp [at?, h]
    case or =>
      have ⟨hw, r, he, hr⟩ := spelling?_eq_some_iff.mp h
      cases ha : and.spelling? cs
      case none => simp [at?, h, ha]
      case some v =>
        -- The third letter of `and` would have to be an end of `or`.
        have ⟨hv, t, hq, _⟩ := spelling?_eq_some_iff.mp ha
        have hk := hv.isKeyChar
        match w, v, hw.length_eq, hv.length_eq with
        | [_, _], [_, _, c], _, _ =>
          have hc := isWordChar_of_isKeyChar (hk c (by simp))
          have hr' : r = c :: t := by simp_all
          simp [hr', hc] at hr

-- A connector in front of a text does not reach into what follows, if no word goes on there.
theorem at?_of_append (hr : Stops isWordChar r) (h : at? (cs ++ r) = some (k, w)) :
    at? cs = some (k, w) := by
  have ⟨hw, t, he, ht⟩ := at?_eq_some_iff.mp h
  refine at?_eq_some_iff.mpr ⟨hw, ?_⟩
  cases List.append_eq_append_iff.mp he
  case inl h =>
    have ⟨a, ha, hr'⟩ := h
    cases a
    case nil => exact ⟨[], by simpa using ha.symm, stops_nil⟩
    case cons c a =>
      have hc := isWordChar_of_isKeyChar (hw.isKeyChar c (by simp [ha]))
      simp [hr', hc] at hr
  case inr h =>
    have ⟨c, hc, ht'⟩ := h
    exact ⟨c, hc, (ht' ▸ ht).of_append⟩

theorem at?_eq_none_iff : at? cs = none ↔ ∀ k w r, cs = w ++ r → Stops isWordChar r → ¬Spelling k w := by
  constructor
  case mp =>
    intro h k w r he hr hw
    have := at?_eq_some_iff.mpr ⟨hw, r, he, hr⟩
    simp [h] at this
  case mpr =>
    intro h
    cases ha : at? cs
    case none => rfl
    case some kw =>
      have ⟨hw, r, he, hr⟩ := at?_eq_some_iff.mp ha
      exact absurd hw (h _ _ _ he hr)

end Connector

namespace Bracket

variable {b : Bracket} {cs ds r : List Char}

theorem keyword_eq (b : Bracket) : ∃ name,
    b.keyword = name ++ [':'] ∧ name ≠ [] ∧ ∀ c ∈ name, c.isAlpha := by
  cases b
  case facets => exact ⟨['f', 'a', 'c', 'e', 't', 's'], rfl, by simp, by simp [Char.isAlpha, Char.isLower]⟩
  case nested => exact ⟨['n', 'e', 's', 't', 'e', 'd'], rfl, by simp, by simp [Char.isAlpha, Char.isLower]⟩

theorem opens_iff : b.opens cs ↔ ∃ w r, cs = b.keyword ++ (w ++ '[' :: r) ∧ IsBlank w := by
  have hb : isBlank '[' = false := rfl
  constructor
  case mp =>
    intro h
    simp only [opens, Bool.and_eq_true, List.isPrefixOf_iff_prefix, decide_eq_true_eq] at h
    have ⟨⟨t, ht⟩, ho⟩ := h
    have ⟨w, r, he, hw, hr⟩ := exists_span isBlank t
    subst ht he
    rw [List.drop_left, dropWhile_append hw hr] at ho
    cases r
    case nil => simp at ho
    case cons c r =>
      simp only [List.head?_cons, Option.some.injEq] at ho
      exact ⟨w, r, by rw [ho], hw⟩
  case mpr =>
    intro ⟨w, r, he, hw⟩
    have hd : (w ++ '[' :: r).dropWhile isBlank = '[' :: r := dropWhile_append hw (by simp [hb])
    simp [opens, he, hd]

theorem at?_eq_some_iff : at? cs = some b ↔ b.opens cs := by
  cases b
  case facets => simp [at?]
  case nested =>
    cases hf : facets.opens cs
    case false => simp [at?, hf]
    case true =>
      have ⟨w, r, he, _⟩ := opens_iff.mp hf
      have hn : nested.opens cs = false := by simp [opens, he, keyword]
      simp [at?, hf, hn]

end Bracket

namespace Scope

variable {scope : Scope} {r : List Char}

-- A sequence in `scope` ends before `r`.
def Ends (scope : Scope) (r : List Char) : Prop :=
  (∀ c ∈ r.head?, c = ')') ∨ scope = .query ∧ ∃ b : Bracket, b.opens r

-- A sequence in `scope` goes on at `r`.
structure Continues (scope : Scope) (r : List Char) : Prop where
  stops    : Stops isBlank r
  not_ends : ¬scope.Ends r

theorem endsAt_iff {c : Cursor} : scope.endsAt c ↔ scope.Ends c.rest := by
  unfold endsAt Ends Cursor.peek
  split
  case h_1 h => simp [h]
  case h_2 h => simp [h]
  case h_3 x h hx =>
    simp [hx, show x ≠ ')' from h, Option.isSome_iff_exists, Bracket.at?_eq_some_iff]

theorem Ends.of_group (h : Ends .group r) : scope.Ends r :=
  .inl <| h.resolve_right (by simp)

theorem not_ends_of_spelling (h : Connector.Spelling k w) : ¬scope.Ends (w ++ r) := by
  intro he
  have hk := h.isKeyChar
  cases w
  case nil => exact h.ne_nil rfl
  case cons c w =>
    have hc := hk c (by simp)
    cases he
    case inl he => simp_all [isKeyChar]
    case inr he =>
      have ⟨_, b, hb⟩ := he
      have ⟨v, t, ht, _⟩ := Bracket.opens_iff.mp hb
      cases b <;> cases k <;> simp_all [Connector.Spelling, Connector.chars, Bracket.keyword]

end Scope

end SearchQuery
