import SearchQuery.Proofs.Runs
import SearchQuery.Text.Slice

namespace SearchQuery

open Text

namespace Escaping

-- What is reserved, in the order in which it is looked for.
def reserved : List (List Char) := [
  ['\\'], ['+'], ['-'], ['&', '&'], ['|', '|'], ['!'], ['('], [')'], ['\x7b'], ['\x7d'], ['['],
  [']'], ['^'], ['"'], ['~'], ['*'], ['?'], ['/'], [':']
]

-- What is reserved and yet kept.
def kept : Escaping → List (List Char)
  | value      => []
  | freeText   => [['('], [')']]
  | facetValue => [['"']]

-- The entry with which the text starts.
def at? (e : Escaping) (cs : List Char) : Option (List Char) :=
  (reserved.filter (· ∉ e.kept)).find? (·.isPrefixOf cs)

variable {e : Escaping} {cs r : List Char}

theorem mem_reserved_iff :
    r ∈ reserved ↔ (∃ c, isReserved c ∧ r = [c]) ∨ r = ['&', '&'] ∨ r = ['|', '|'] := by
  simp only [reserved, isReserved, List.mem_cons, List.not_mem_nil, or_false, decide_eq_true_eq,
    or_and_right, exists_or, exists_eq_left]
  grind

theorem singleton_mem_kept_iff : [c] ∈ e.kept ↔ e.keeps c := by
  cases e <;> simp [kept, keeps]

theorem pair_not_mem_kept : [c, c] ∉ e.kept := by
  cases e <;> simp [kept]

-- What is looked for is what gets a backslash.
theorem mem_filter_reserved_iff : r ∈ reserved.filter (· ∉ e.kept) ↔ e.Reserves r := by
  simp only [List.mem_filter, mem_reserved_iff, decide_eq_true_eq]
  constructor
  case mp =>
    rintro ⟨⟨c, hc, rfl⟩ | rfl | rfl, hk⟩
    · exact .char hc (by simpa [singleton_mem_kept_iff] using hk)
    · exact .and
    · exact .or
  case mpr =>
    rintro (⟨hc, hk⟩ | _ | _)
    · exact ⟨.inl ⟨_, hc, rfl⟩, by simp [singleton_mem_kept_iff, hk]⟩
    · exact ⟨.inr (.inl rfl), pair_not_mem_kept⟩
    · exact ⟨.inr (.inr rfl), pair_not_mem_kept⟩

theorem encode_reserves (h : e.Reserves r) (cs : List Char) :
    e.encode (r ++ cs) = '\\' :: (r ++ e.encode cs) := by
  cases h
  case char c hc hk =>
    have he : e.escapes c := by simp [escapes, hc, hk]
    rw [List.singleton_append, encode_cons e fun hp => not_escapes_of_pair hp.1 he, if_pos he]
    rfl
  all_goals rfl

theorem encode_cons_of_at?_eq_none (h : e.at? (c :: cs) = none) :
    e.encode (c :: cs) = c :: e.encode cs := by
  have hn (r : List Char) (hr : e.Reserves r) : ¬r <+: c :: cs := by
    simpa using List.find?_eq_none.mp h r (mem_filter_reserved_iff.mpr hr)
  have hc : ¬e.escapes c := fun he => hn [c] (reserves_char_iff.mpr he) ⟨cs, rfl⟩
  have hp : ¬((c = '&' ∨ c = '|') ∧ cs.head? = some c) := by
    rintro ⟨hp, hh⟩
    obtain ⟨t, rfl⟩ := List.head?_eq_some_iff.mp hh
    rcases hp with rfl | rfl
    · exact hn _ .and ⟨t, rfl⟩
    · exact hn _ .or ⟨t, rfl⟩
  rw [encode_cons e hp, if_neg hc]
  rfl

theorem starts_of_at? (h : e.at? cs = some r) : e.Reserves r ∧ r <+: cs :=
  ⟨mem_filter_reserved_iff.mp (List.mem_of_find?_eq_some h), by simpa using List.find?_some h⟩

theorem size_at?_pos (h : e.at? cs = some r) : 0 < size r := by
  have hn : r ≠ [] := by cases (starts_of_at? h).1 <;> simp
  exact Nat.pos_of_ne_zero (mt size_eq_zero_iff.mp hn)

-- Escapes a text slice by slice: what is left is cut behind each entry and each other character.
def encodeSlices (e : Escaping) (cs : List Char) : Option (List Char) :=
  match cs with
  | []      => some []
  | c :: cs =>
    match _he : e.at? (c :: cs) with
    | some r =>
      match _hr : behind? (size r) (c :: cs) with
      | some rest => (e.encodeSlices rest).map fun escaped => '\\' :: (r ++ escaped)
      | none      => none
    | none   =>
      match _hr : behind? c.utf8Size (c :: cs) with
      | some rest => (e.encodeSlices rest).map (c :: ·)
      | none      => none
termination_by cs.length
decreasing_by
  · exact length_lt_of_behind? (size_at?_pos _he) _hr
  · exact length_lt_of_behind? c.utf8Size_pos _hr

-- No slice is missing, and the slices are escaped to what the text is escaped to.
theorem encodeSlices_eq (e : Escaping) (cs : List Char) :
    e.encodeSlices cs = some (e.encode cs) := by
  fun_induction encodeSlices e cs
  case case1 => rfl
  case case2 c cs r he t hr ih =>
    obtain ⟨hs, v, hv⟩ := starts_of_at? he
    have ht : v = t := Option.some.inj (behind?_append.symm.trans (hv ▸ hr))
    rw [ih, ← hv, ht, encode_reserves hs]
    rfl
  case case3 c cs r he hr =>
    obtain ⟨_, v, hv⟩ := starts_of_at? he
    rw [← hv, behind?_append] at hr
    cases hr
  case case4 c cs he t hr ih =>
    have ht : cs = t := Option.some.inj ((behind?_append (u := [c])).symm.trans hr)
    rw [ih, encode_cons_of_at?_eq_none he, ht]
    rfl
  case case5 c cs he hr => exact nomatch (behind?_append (u := [c])).symm.trans hr

end Escaping

end SearchQuery
