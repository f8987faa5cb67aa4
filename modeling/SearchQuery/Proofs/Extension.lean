import SearchQuery.Proofs.Parts

namespace SearchQuery

open Text Cursor

variable {n : Nat} {scope : Scope} {b r t u v w : List Char}

namespace Text

theorem Stops.append_blank {p : Char → Bool} (hb : IsBlank b) (h : Stops p r → Stops p t) :
    Stops p (b ++ r) → Stops p (b ++ t) := by
  cases b
  case nil => exact h
  case cons c b => simp

end Text

-- What comes behind a text can only complete a keyword which the text has already started.
theorem Parser.opensTypeClause_of_append (h : opensTypeClause (v ++ t)) :
    opensTypeClause v ∨ ∃ c a, typeKeyword = v ++ c :: a ∧ t.head? = some c := by
  have ⟨r, he, hr⟩ := opensTypeClause_iff.mp h
  cases List.append_eq_append_iff.mp he
  case inl h =>
    have ⟨a, hv, ha⟩ := h
    cases a
    case nil => exact .inl <| opensTypeClause_iff.mpr ⟨[], by simpa using hv.symm, by simp⟩
    case cons c a => exact .inr ⟨c, a, hv, by simp [ha]⟩
  case inr h =>
    have ⟨c, hv, hr'⟩ := h
    refine .inl <| opensTypeClause_iff.mpr ⟨c, hv, ?_⟩
    cases c
    case nil => simp
    case cons => simpa [hr'] using hr

theorem Scope.Ends.append (h : scope.Ends r) (n : r ≠ []) : scope.Ends (r ++ t) := by
  cases h
  case inl h =>
    cases r
    case nil => contradiction
    case cons => exact .inl (by simpa using h)
  case inr h =>
    have ⟨hq, b, hb⟩ := h
    have ⟨w, v, hr, hw⟩ := Bracket.opens_iff.mp hb
    exact .inr ⟨hq, b, Bracket.opens_iff.mpr ⟨w, v ++ t, by simp [hr], hw⟩⟩

-- It only matters whether a word can end before what follows.
theorem Item.Found.congr {i : Item} (h : i.Found n u r) (hs : Stops isWordChar r → Stops isWordChar t) :
    i.Found n u t :=
  ⟨h.wellFormed, h.nesting, h.spells, h.ends.imp_right hs⟩

namespace Fragment

variable {f : Fragment}

theorem Found.congr (h : f.Found n scope u r) (he : scope.Ends t)
    (hs : Stops isWordChar r → Stops isWordChar t) : f.Found n scope u t := by
  have ⟨w, b, hu, hw, hb, ht⟩ := h.spells
  exact ⟨h.wellFormed, h.avoids, h.nesting, ⟨w, b, hu, hw, hb, ht.imp_right (.append_blank hb hs)⟩, he⟩

theorem Found.blank (h : f.Found n scope u r) (he : scope.Ends t) (hb : IsBlank b) (hn : b ≠ []) :
    f.Found n scope (u ++ b) t := by
  have ⟨w, c, hu, hw, hc, _⟩ := h.spells
  have hcb : IsBlank (c ++ b) := isBlank_append.mpr ⟨hc, hb⟩
  have hs : Stops isWordChar (c ++ b ++ t) := stops_of_isBlank hcb (by simp [hn])
  exact ⟨h.wellFormed, h.avoids, h.nesting, ⟨w, c ++ b, by simp [hu], hw, hcb, .inr hs⟩, he⟩

theorem Found.extend (h : f.Found n scope u r) (hn : r ≠ []) : f.Found n scope u (r ++ t) :=
  h.congr (h.ends.append hn) fun hs => hs.append_right hn

theorem Grouped.congr (h : f.Grouped n u r) : f.Grouped n u t :=
  grouped_iff.mpr (grouped_iff.mp h)

end Fragment

-- The junction before a sequence is found in the same way when the sequence goes on.
theorem Junction.Found.congr {i : Item} {j : Junction} {f : Fragment}
    (h : j.Found scope m (v ++ r)) (hl : i.isClosed ∨ Stops isWordChar (m ++ (v ++ r)))
    (hf : f.Found n scope v r) (hs : Stops isWordChar r → Stops isWordChar t) :
    j.Found scope m (v ++ t) := by
  have ⟨w, b, hv, hw, hb, ht⟩ := hf.spells
  simp only [hv, List.append_assoc] at h hl ⊢
  have ⟨hj, hm, ha⟩ := h.spells hl hf.wellFormed hw ht
  exact hm.found hj hf.wellFormed hw (ht.imp_right (.append_blank hb hs)) ha

theorem not_isBlank_of_stops (h : Stops isBlank r) (n : r ≠ []) : ¬IsBlank (b ++ r) := by
  intro hb
  cases r
  case nil => contradiction
  case cons c r => simp_all [IsBlank]

theorem FacetSpec.Found.extend {spec : FacetSpec} (h : spec.Found n u r) (hr : ¬IsBlank r) :
    spec.Found n u (r ++ t) := by
  cases h
  case bare b r hb hs hn ho hw =>
    have hr' : r ≠ [] := by
      intro he
      simp [he, hb] at hr
    have hn := hn.append_right (r := t) (by simp [hr'])
    rw [List.append_assoc] at hn ⊢
    refine .bare hw hb (hs.append_right hr') hn ?_
    cases r
    case nil => contradiction
    case cons => exact ho
  case filtered hw hb hg => exact .filtered hw hb hg.congr

theorem NestedSpec.Found.extend {spec : NestedSpec} (h : spec.Found n u r) :
    spec.Found n u (r ++ t) := by
  cases h
  case intro hw hb hg => exact .intro hw hb hg.congr

theorem Separates.extend (h : Separates s r) (n : r ≠ []) : Separates s (r ++ t) := by
  cases r
  case nil => contradiction
  case cons c r => exact h

section

variable {α : Type} {Found : α → List Char → List Char → Prop} {a : α} {as : List α}

theorem EntriesFound.ne_nil (h : EntriesFound Found as u r) : u ≠ [] := by
  induction h
  case last => simp
  case cons hi => simp [hi]

theorem EntriesFound.extend
    (hf : ∀ {a u r}, Found a u r → ¬IsBlank r → Found a u (r ++ t)) (h : EntriesFound Found as u r) :
    EntriesFound Found as u (r ++ t) := by
  induction h
  case last a u s r ha hs =>
    have ha := hf ha (not_isBlank_of_stops hs.1 (by simp))
    exact .last (by simpa using ha) (hs.extend (by simp))
  case cons a u s v r as ha hs hc hr hi =>
    have hv := hr.ne_nil
    have ha := hf ha (not_isBlank_of_stops hs.1 (by simp [hv]))
    have hs := hs.extend (t := t) (by simp [hv])
    refine .cons (by simpa using ha) (by simpa using hs) ?_ hi
    cases v
    case nil => contradiction
    case cons => exact hc

end

section

variable {α : Type} {Found : Nat → α → List Char → List Char → Prop} {as : List α} {br : Bracket}

-- Nothing behind the closing bracket has any influence.
theorem ClauseFound.extend (hf : ∀ {n a u r}, Found n a u r → ¬IsBlank r → Found n a u (r ++ t))
    (h : ClauseFound Found br n as u r) : ClauseFound Found br n as u (r ++ t) := by
  cases h
  case intro hb₁ hb₂ hs he =>
    have hs := hs.append_right (r := t) (by simp [he.ne_nil])
    exact .intro hb₁ hb₂ (by simpa using hs) (he.extend hf)

end

theorem Part.Found.extend {p : Part} (h : p.Found n u r) (hn : r ≠ []) : p.Found n u (r ++ t) := by
  cases h
  case facets h => exact .facets (h.extend .extend)
  case nested h => exact .nested (h.extend fun h _ => h.extend)
  case text hb hf => exact .text hb (hf.extend hn)

end SearchQuery
