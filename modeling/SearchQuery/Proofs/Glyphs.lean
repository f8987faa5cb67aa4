import SearchQuery.Proofs.Balance

namespace SearchQuery

namespace Text

-- A character of a text, and whether a backslash makes it literal.
structure Glyph where
  char    : Char
  literal : Bool
  deriving DecidableEq, Repr

-- Reads a text in the way in which the inside of a phrase is read: a backslash is dropped, and
-- makes the next character literal. There is nothing to read if the text ends with a backslash for
-- which there is no such character.
def glyphs? : List Char → Option (List Glyph)
  | []              => some []
  | ['\\']          => none
  | '\\' :: c :: cs => (glyphs? cs).map (⟨c, true⟩ :: ·)
  | c :: cs         => (glyphs? cs).map (⟨c, false⟩ :: ·)

theorem glyphs?_cons (hc : c ≠ '\\') : glyphs? (c :: cs) = (glyphs? cs).map (⟨c, false⟩ :: ·) := by
  rw [glyphs?]
  · exact fun h _ => hc h
  · exact fun _ _ h => absurd h hc

-- The characters which keep their meaning are the ones which are not made literal.
theorem unescaped?_eq (cs : List Char) : unescaped? cs = (glyphs? cs).map fun gs =>
    (gs.filter fun g => !g.literal).map Glyph.char := by
  fun_induction glyphs? cs
  case case1 => rfl
  case case2 => rfl
  case case3 hi =>
    rw [unescaped?, hi]
    simp [Function.comp_def]
  case case4 c cs h₁ h₂ hi =>
    rw [unescaped?, hi]
    · simp [Function.comp_def]
    · exact h₁
    · exact h₂

end Text

open Text

namespace Escaping

variable {e : Escaping} {cs : List Char}

-- The characters and pairs which get a backslash.
inductive Reserves (e : Escaping) : List Char → Prop
  | char : isReserved c → e.keeps c = false → Reserves e [c]
  | and  : Reserves e ['&', '&']
  | or   : Reserves e ['|', '|']

theorem reserves_char_iff : e.Reserves [c] ↔ e.escapes c := by
  simp only [escapes, Bool.and_eq_true, Bool.not_eq_true']
  constructor
  case mp =>
    rintro ⟨⟩
    exact ⟨‹_›, ‹_›⟩
  case mpr => exact fun h => .char h.1 h.2

theorem escapes_backslash (e : Escaping) : e.escapes '\\' := by
  cases e <;> simp [escapes, isReserved, keeps]

theorem ne_backslash_of_not_escapes (h : ¬e.escapes c) : c ≠ '\\' := by
  rintro rfl
  exact h e.escapes_backslash

theorem glyphs?_encode (e : Escaping) (cs : List Char) :
    ∃ gs, glyphs? (e.encode cs) = some gs ∧ gs.map Glyph.char = cs := by
  fun_induction encode e cs
  case case1 => exact ⟨[], rfl, rfl⟩
  case case2 hi =>
    obtain ⟨gs, hg, hc⟩ := hi
    exact ⟨⟨'&', true⟩ :: ⟨'&', false⟩ :: gs, by simp [glyphs?, hg], by simp [hc]⟩
  case case3 hi =>
    obtain ⟨gs, hg, hc⟩ := hi
    exact ⟨⟨'|', true⟩ :: ⟨'|', false⟩ :: gs, by simp [glyphs?, hg], by simp [hc]⟩
  case case4 c cs _ _ _ hi =>
    obtain ⟨gs, hg, hc⟩ := hi
    exact ⟨⟨c, true⟩ :: gs, by simp [glyphs?, hg], by simp [hc]⟩
  case case5 c cs _ _ h hi =>
    obtain ⟨gs, hg, hc⟩ := hi
    have hb := ne_backslash_of_not_escapes h
    exact ⟨⟨c, false⟩ :: gs, by simp [glyphs?_cons hb, hg], by simp [hc]⟩

theorem not_escapes_of_glyphs? (hg : glyphs? (e.encode cs) = some gs) (hm : g ∈ gs)
    (hl : g.literal = false) : e.escapes g.char = false := by
  have ⟨s, hs, h⟩ := e.unescaped?_encode cs
  rw [unescaped?_eq, hg] at hs
  cases hs
  exact (h g.char (List.mem_map_of_mem (by simp [hm, hl]))).2

theorem encode_injective (e : Escaping) : Function.Injective e.encode := by
  intro cs ds h
  have ⟨gs, hg, hc⟩ := e.glyphs?_encode cs
  have ⟨fs, hf, hd⟩ := e.glyphs?_encode ds
  rw [h, hf] at hg
  cases hg
  exact hc.symm.trans hd

theorem backslash_mem_encode_iff : '\\' ∈ e.encode cs ↔ ∃ r, e.Reserves r ∧ r <:+: cs := by
  fun_induction encode e cs
  case case1 =>
    simp only [List.not_mem_nil, List.infix_nil, false_iff, not_exists, not_and]
    rintro _ ⟨⟩ <;> simp
  case case2 cs _ => exact iff_of_true (by simp) ⟨_, .and, [], cs, rfl⟩
  case case3 cs _ => exact iff_of_true (by simp) ⟨_, .or, [], cs, rfl⟩
  case case4 c cs _ _ h _ => exact iff_of_true (by simp) ⟨_, reserves_char_iff.mpr h, [], cs, rfl⟩
  case case5 c cs hand hor h hi =>
    -- No entry starts with `c`, so it makes no difference to the ones in the text.
    have hc : '\\' ≠ c := (ne_backslash_of_not_escapes h).symm
    have hp (r : List Char) (hr : e.Reserves r) : ¬r <+: c :: cs := by
      rintro ⟨t, ht⟩
      cases hr
      case char hr hk => simp_all [escapes]
      case and => simp at ht; exact hand t ht.1.symm ht.2.symm
      case or => simp at ht; exact hor t ht.1.symm ht.2.symm
    simp only [List.mem_cons, hc, false_or, hi, List.infix_cons_iff]
    constructor
    case mp =>
      rintro ⟨r, hr, h⟩
      exact ⟨r, hr, .inr h⟩
    case mpr =>
      rintro ⟨r, hr, h⟩
      exact ⟨r, hr, h.resolve_left (hp r hr)⟩

theorem length_le_encode (e : Escaping) (cs : List Char) : cs.length ≤ (e.encode cs).length := by
  fun_induction encode e cs <;> simp <;> omega

theorem length_lt_encode (h : '\\' ∈ e.encode cs) : cs.length < (e.encode cs).length := by
  fun_induction encode e cs
  case case1 => simp at h
  case case5 hn hi =>
    have hc := (ne_backslash_of_not_escapes hn).symm
    simpa using hi (by simpa [hc] using h)
  all_goals grind [length_le_encode]

theorem encode_eq_self_iff : e.encode cs = cs ↔ ∀ r, e.Reserves r → ¬r <:+: cs := by
  have hn : e.encode cs = cs ↔ '\\' ∉ e.encode cs := by
    constructor
    case mp =>
      intro h hb
      have := length_lt_encode hb
      rw [h] at this
      omega
    case mpr => exact encode_eq_self
  simp [hn, backslash_mem_encode_iff]

-- Escaping can be undone, since what was escaped reads as it was. No character that needs a
-- backslash is without one, and there is one only where an entry is reserved.
theorem apply_reversible (e : Escaping) :
    (∀ s, ∃ gs, glyphs? (e.apply s).toList = some gs ∧ gs.map Glyph.char = s.toList ∧
      ∀ g ∈ gs, g.literal = false → ¬e.Reserves [g.char]) ∧
    Function.Injective e.apply ∧
    ∀ s, e.apply s = s ↔ ∀ r, e.Reserves r → ¬r <:+: s.toList := by
  refine ⟨fun s => ?_, fun s t h => ?_, fun s => ?_⟩
  · have ⟨gs, hg, hc⟩ := e.glyphs?_encode s.toList
    refine ⟨gs, by simpa using hg, hc, fun g hm hl hr => ?_⟩
    have hn := not_escapes_of_glyphs? hg hm hl
    simp [reserves_char_iff.mp hr] at hn
  · have h := congrArg String.toList h
    rw [toList_apply, toList_apply] at h
    exact String.toList_inj.mp (e.encode_injective h)
  · rw [← String.toList_inj, toList_apply]
    exact encode_eq_self_iff

example : Escaping.facetValue.apply "\"a\" &&&" = "\"a\" \\&&&" := by decide +kernel

end Escaping

end SearchQuery
