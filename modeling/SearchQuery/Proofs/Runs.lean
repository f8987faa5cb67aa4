import SearchQuery.Proofs.Glyphs

namespace SearchQuery

open Text

namespace Text

-- The text has a run of exactly `n` times `c`.
def HasRun (c : Char) (n : Nat) (cs : List Char) : Prop :=
  ∃ u v, cs = u ++ (List.replicate n c ++ v) ∧ u.getLast? ≠ some c ∧ v.head? ≠ some c

-- Two characters `c` in a row keep their meaning.
def HasPair (c : Char) (gs : List Glyph) : Prop :=
  [⟨c, false⟩, ⟨c, false⟩] <:+: gs

variable {c d : Char} {n : Nat} {cs : List Char}

theorem not_hasRun_nil : ¬HasRun c (n + 1) [] := by
  rintro ⟨u, v, he, _⟩
  simp [List.replicate_succ] at he

theorem hasRun_cons_of_ne (h : d ≠ c) : HasRun c (n + 1) (d :: cs) ↔ HasRun c (n + 1) cs := by
  constructor
  case mp =>
    rintro ⟨u, v, he, hu, hv⟩
    cases u
    case nil => exact absurd (by simp_all [List.replicate_succ]) h
    case cons _ u =>
      simp only [List.cons_append, List.cons.injEq] at he
      exact ⟨u, v, he.2, by cases u <;> simp_all, hv⟩
  case mpr =>
    rintro ⟨u, v, he, hu, hv⟩
    exact ⟨d :: u, v, by simp [he], by cases u <;> simp_all, hv⟩

-- A character which stands alone is no part of a longer run.
theorem hasRun_cons_of_head (h : cs.head? ≠ some c) :
    HasRun c (n + 2) (c :: cs) ↔ HasRun c (n + 2) cs := by
  constructor
  case mp =>
    rintro ⟨u, v, he, hu, hv⟩
    cases u
    case nil => exact absurd (by simp_all [List.replicate_succ]) h
    case cons _ u =>
      simp only [List.cons_append, List.cons.injEq] at he
      exact ⟨u, v, he.2, by cases u <;> simp_all, hv⟩
  case mpr =>
    rintro ⟨u, v, he, hu, hv⟩
    cases u
    case nil => exact absurd (by simp [he, List.replicate_succ]) h
    case cons b u => exact ⟨c :: b :: u, v, by simp [he], by simpa using hu, hv⟩

-- Two characters in front of a run do not change whether its length is odd.
theorem hasRun_cons_cons : (∃ k, HasRun c (2 * k + 3) (c :: c :: cs)) ↔
    (cs.head? = some c ∧ cs.tail.head? ≠ some c) ∨ ∃ k, HasRun c (2 * k + 3) cs := by
  constructor
  case mp =>
    rintro ⟨k, u, v, he, hu, hv⟩
    match u, k with
    | [], 0 => exact .inl (by simp_all [List.replicate_succ])
    | [], k + 1 =>
      exact .inr ⟨k, [], v, by simp_all [Nat.mul_add, List.replicate_succ], by simp, hv⟩
    | [b], _ => exact absurd (by simp_all) hu
    | [b, b'], _ => exact absurd (by simp at he; simp [← he]) hu
    | b :: b' :: b'' :: u, k =>
      simp only [List.cons_append, List.cons.injEq] at he
      exact .inr ⟨k, b'' :: u, v, by simp [he], by simpa using hu, hv⟩
  case mpr =>
    rintro (⟨hc, hn⟩ | ⟨k, u, v, he, hu, hv⟩)
    · obtain ⟨v, rfl⟩ := List.head?_eq_some_iff.mp hc
      exact ⟨0, [], v, by simp [List.replicate_succ], by simp, hn⟩
    · cases u
      case nil => exact ⟨k + 1, [], v, by simp [he, Nat.mul_add, List.replicate_succ], by simp, hv⟩
      case cons b u => exact ⟨k, c :: c :: b :: u, v, by simp [he], by simpa using hu, hv⟩

theorem hasPair_cons {g : Glyph} {gs : List Glyph} : HasPair c (g :: gs) ↔
    (g = ⟨c, false⟩ ∧ gs.head? = some ⟨c, false⟩) ∨ HasPair c gs := by
  rw [HasPair, List.infix_cons_iff, List.cons_prefix_cons, ← HasPair]
  cases gs <;> simp [eq_comm]

end Text

namespace Escaping

variable {e : Escaping} {c : Char} {cs : List Char} {gs : List Glyph}

theorem not_escapes_of_pair (hc : c = '&' ∨ c = '|') : ¬e.escapes c := by
  rcases hc with rfl | rfl <;> simp [escapes, isReserved]

theorem glyphs?_encode_pair (e : Escaping) (hc : c = '&' ∨ c = '|') :
    glyphs? (e.encode (c :: c :: cs)) =
      (glyphs? (e.encode cs)).map fun gs => ⟨c, true⟩ :: ⟨c, false⟩ :: gs := by
  have hb : c ≠ '\\' := by rcases hc with rfl | rfl <;> decide
  simp [encode_pair e hc, glyphs?, glyphs?_cons hb, Function.comp_def]

theorem glyphs?_encode_cons (e : Escaping) (h : ¬((c = '&' ∨ c = '|') ∧ cs.head? = some c)) :
    glyphs? (e.encode (c :: cs)) = (glyphs? (e.encode cs)).map (⟨c, e.escapes c⟩ :: ·) := by
  rw [encode_cons e h]
  cases he : e.escapes c
  case true => simp [glyphs?]
  case false => exact glyphs?_cons (ne_backslash_of_not_escapes (e := e) (by simp [he]))

-- Only the first character of a pair gets a backslash, so what starts without one is no pair.
theorem head?_glyphs? (hc : c = '&' ∨ c = '|') (hg : glyphs? (e.encode cs) = some gs) :
    gs.head? = some ⟨c, false⟩ ↔ cs.head? = some c ∧ cs.tail.head? ≠ some c := by
  match cs with
  | [] =>
    cases hg
    simp
  | d :: cs =>
    by_cases hp : (d = '&' ∨ d = '|') ∧ cs.head? = some d
    case pos =>
      obtain ⟨hd, t, ht⟩ := And.imp_right List.head?_eq_some_iff.mp hp
      rw [ht, glyphs?_encode_pair e hd] at hg
      obtain ⟨fs, _, rfl⟩ := Option.map_eq_some_iff.mp hg
      simp +contextual [ht]
    case neg =>
      rw [glyphs?_encode_cons e hp] at hg
      obtain ⟨fs, _, rfl⟩ := Option.map_eq_some_iff.mp hg
      have := not_escapes_of_pair (e := e) hc
      simp only [List.head?_cons, Option.some.injEq, Glyph.mk.injEq, List.tail_cons]
      grind

theorem hasPair_iff (hc : c = '&' ∨ c = '|') (hg : glyphs? (e.encode cs) = some gs) :
    HasPair c gs ↔ ∃ k, HasRun c (2 * k + 3) cs := by
  induction hl : cs.length using Nat.strong_induction_on generalizing cs gs
  case h l ih =>
  match cs with
  | [] =>
    cases hg
    simp [HasPair, not_hasRun_nil]
  | d :: cs =>
    by_cases hp : (d = '&' ∨ d = '|') ∧ cs.head? = some d
    case pos =>
      obtain ⟨hd, t, rfl⟩ := And.imp_right List.head?_eq_some_iff.mp hp
      rw [glyphs?_encode_pair e hd] at hg
      obtain ⟨fs, hf, rfl⟩ := Option.map_eq_some_iff.mp hg
      rw [hasPair_cons, hasPair_cons, ih _ (by grind) hf rfl]
      by_cases hdc : d = c
      case pos => simp [hdc, hasRun_cons_cons, head?_glyphs? hc hf]
      case neg => simp [hdc, hasRun_cons_of_ne hdc]
    case neg =>
      rw [glyphs?_encode_cons e hp] at hg
      obtain ⟨fs, hf, rfl⟩ := Option.map_eq_some_iff.mp hg
      rw [hasPair_cons, ih _ (by simp [← hl]) hf rfl, head?_glyphs? hc hf]
      by_cases hdc : d = c
      case pos =>
        have hh : cs.head? ≠ some c := fun h => hp ⟨hdc ▸ hc, hdc ▸ h⟩
        simp [hdc, hh, hasRun_cons_of_head hh]
      case neg => simp [hdc, hasRun_cons_of_ne hdc]

-- An operator of the backend survives exactly where a run of its character has an odd length and
-- is no single character: the last two characters of such a run are left without a backslash.
theorem apply_leaves_pair_iff (e : Escaping) (s : String) :
    ∃ gs, glyphs? (e.apply s).toList = some gs ∧
      (HasPair '&' gs ↔ ∃ k, HasRun '&' (2 * k + 3) s.toList) ∧
      (HasPair '|' gs ↔ ∃ k, HasRun '|' (2 * k + 3) s.toList) := by
  have ⟨gs, hg, _⟩ := e.glyphs?_encode s.toList
  exact ⟨gs, by simpa using hg, hasPair_iff (.inl rfl) hg, hasPair_iff (.inr rfl) hg⟩

-- Three characters in a row are a pair and one more, and together with this one the second
-- character of the pair is an operator again.
theorem apply_leaves_pair_three : ¬∀ (e : Escaping) (s : String) (gs : List Glyph),
    glyphs? (e.apply s).toList = some gs → ¬HasPair '&' gs ∧ ¬HasPair '|' gs := by
  intro h
  have hg : glyphs? (Escaping.value.apply "&&&").toList =
      some [⟨'&', true⟩, ⟨'&', false⟩, ⟨'&', false⟩] := by
    decide +kernel
  exact (h .value "&&&" _ hg).1 ⟨[⟨'&', true⟩], [], rfl⟩

end Escaping

end SearchQuery
