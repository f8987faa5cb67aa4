import SearchQuery.Proofs.Extension

namespace SearchQuery

open Text Cursor

variable {n : Nat} {scope : Scope} {x : Expected} {b r t u v w : List Char}

-- A text which ends before a clause, behind the keyword, is missing the value of a comparison. So
-- it is only there that a bracket can turn what was refused into a clause.
def OpensLater (x : Expected) (r t : List Char) : Prop :=
  x = .value ∧ IsBlank r ∧ (t.dropWhile isBlank).head? = some '['

theorem not_opensLater (h : Stops isBlank r.reverse) (n : r ≠ []) : ¬OpensLater x r t := by
  intro ⟨_, hb, _⟩
  have ⟨c, v, hr⟩ := List.exists_cons_of_ne_nil (List.reverse_ne_nil_iff.mpr n)
  have hc := hb c (List.mem_reverse.mp (by simp [hr]))
  simp [hr, hc] at h

theorem Item.Found.word (hn : w ≠ []) (hw : ∀ c ∈ w, c.isAlpha) (hr : Stops isWordChar r) :
    Item.Found n (.free (.word (.ofList w))) w r := by
  have hw := (IsWord.of_isAlpha hn hw).isFreeWord
  exact ⟨by simpa using hw, Nat.zero_le _, by simp [Atom.literal], .inr hr⟩

theorem Fragment.Found.word (hn : w ≠ []) (hw : ∀ c ∈ w, c.isAlpha) (hr : Scope.Ends .group r) :
    (single (.free (.word (.ofList w)))).Found n scope w r :=
  have hs := hr.stops_word isBlank_nil
  found_single.mpr ⟨w, [], by simp, Item.Found.word hn hw hs, isBlank_nil, hr.of_group⟩

-- The letters of a word never fail, nor do the blanks in front of them.
theorem Fails.not_alpha (h : Fails n (.sequence scope) v x r) (hn : v ++ r ≠ []) :
    ¬∀ c ∈ v ++ r, c.isAlpha := by
  intro hw
  have hf : Fragment.Found n scope _ (v ++ r) [] := .word hn hw (.inl (by simp))
  exact (Parser.accepts_sequence _ hf).not_rejects (Parser.rejects_fails h) (by simp)

theorem PartsFails.not_alpha (h : PartsFails n u x r) (hw : u ++ r = b ++ w) (hb : IsBlank b) :
    ¬∀ c ∈ w, c.isAlpha := by
  intro ha
  have hp : ∃ ps, PartsFound n ps (b ++ w) := by
    by_cases hn : w = []
    case pos => exact ⟨_, by simpa [hn] using .nil hb⟩
    case neg =>
      have hf : Fragment.Found n .query _ w [] := .word hn ha (.inl (by simp))
      have hf := Part.Found.text (by simp [Item.OpensBracket, Fragment.first]) hf
      exact ⟨_, by simpa using PartsFound.cons hb hf (.nil isBlank_nil)⟩
  obtain ⟨ps, hp⟩ := hp
  exact (Parser.accepts_parts hp).not_rejects (Parser.rejects_parts h) (by simp [hw])

-- A connector is not completed by what follows, unless it starts there or a word does.
theorem Connector.at?_append (h : at? (v ++ t) = some (k, w)) (hv : ¬∀ c ∈ v, c.isAlpha) :
    at? v = some (k, w) := by
  have ⟨hw, r, he, hr⟩ := at?_eq_some_iff.mp h
  refine at?_eq_some_iff.mpr ⟨hw, ?_⟩
  cases List.append_eq_append_iff.mp he
  case inl h =>
    have ⟨a, ha, _⟩ := h
    exact absurd (fun c hc => hw.isAlpha c (by simp [ha, hc])) hv
  case inr h =>
    have ⟨c, hc, hr'⟩ := h
    exact ⟨c, hc, (hr' ▸ hr).of_append⟩

-- A keyword without a bracket behind it is a key, and its value is missing.
theorem Fails.keyword (b : Bracket) (h : IsBlank r) :
    Fails n (.sequence scope) b.keyword .value r := by
  have ⟨name, hb, hn, ha⟩ := b.keyword_eq
  have hl : Operator.has.Longest r := by
    cases r
    case nil =>
      intro o ho
      cases o <;> simp [Operator.chars] at ho ⊢
    case cons c r =>
      have hc := h c (by simp)
      refine .of_head? (c := c) rfl ?_
      intro hm
      simp at hm
      rcases hm with hm | hm | hm <;> simp [hm, isBlank, blankRanges] at hc
  have ho : Fails n (.operand .has) [] .value r :=
    .operandMissing fun c hc => .inl (h c (List.mem_of_mem_head? hc))
  have h : Fails n (.sequence scope) (name ++ (Operator.has.chars ++ [])) .value r :=
    .sequenceFirst (.itemValue (.of_isAlpha hn ha) (by simpa using hl) ho)
  simpa [hb, Operator.chars] using h

-- A keyword without its colon is a word of letters.
theorem isAlpha_of_keyword (h : u ++ [':'] = v ++ c :: t) (hu : ∀ c ∈ u, c.isAlpha) :
    ∀ c ∈ v, c.isAlpha := by
  have hv := congrArg List.dropLast h
  simp [List.dropLast_append_of_ne_nil] at hv
  exact fun c hc => hu c (by simp [hv, hc])

theorem Bracket.keyword_prefix {b : Bracket} (ho : b.opens (v ++ t)) (hv : ¬∀ c ∈ v, c.isAlpha) :
    ∃ c w z, v = b.keyword ++ c ∧ c ++ t = w ++ '[' :: z ∧ IsBlank w := by
  have ⟨w, z, he, hw⟩ := opens_iff.mp ho
  have ⟨name, hk, _, ha⟩ := b.keyword_eq
  cases List.append_eq_append_iff.mp he
  case inr h =>
    have ⟨c, hc, hz⟩ := h
    exact ⟨c, w, z, hc, hz.symm, hw⟩
  case inl h =>
    have ⟨a, hv', ht⟩ := h
    cases a
    case nil => exact ⟨[], w, z, by simpa using hv'.symm, by simpa using ht, hw⟩
    case cons c a => exact absurd (isAlpha_of_keyword (hk.symm.trans hv') ha) hv

theorem Fails.opensLater {b : Bracket} (h : Fails n (.sequence scope) v x r) (hn : v ++ r ≠ [])
    (hb : ¬b.opens (v ++ r)) (ho : b.opens (v ++ r ++ t)) : OpensLater x r t := by
  have ⟨c, w, z, hv, hz, hw⟩ := Bracket.keyword_prefix ho (h.not_alpha hn)
  have ht : IsBlank c ∧ ∃ d, IsBlank d ∧ t = d ++ '[' :: z := by
    cases List.append_eq_append_iff.mp hz
    case inl h =>
      have ⟨d, hd, ht⟩ := h
      have hw := isBlank_append.mp (hd ▸ hw)
      exact ⟨hw.1, d, hw.2, ht⟩
    case inr h =>
      have ⟨e, hc, he⟩ := h
      cases e
      case nil => exact ⟨by simpa [hc] using hw, [], isBlank_nil, by simpa using he.symm⟩
      case cons e es =>
        simp only [List.cons_append, List.cons.injEq] at he
        exact absurd (Bracket.opens_iff.mpr ⟨w, es, by rw [hv, hc, he.1], hw⟩) hb
  have ⟨hc, d, hd, ht⟩ := ht
  have hf : Fails n (.sequence scope) b.keyword .value c := .keyword b hc
  have ⟨hx, _, hr⟩ := (Parser.rejects_fails h).unique (Parser.rejects_fails hf) hv
  refine ⟨hx, hr ▸ hc, ?_⟩
  rw [ht, dropWhile_append hd (stops_cons.mpr rfl)]
  rfl

-- The junction in front of a sequence which fails stays when the text goes on.
theorem Junction.Found.append {j : Junction} (h : j.Found scope m (v ++ r))
    (hf : Fails n (.sequence scope) v x r) (hx : ¬OpensLater x r t) :
    j.Found scope m (v ++ r ++ t) := by
  have ⟨⟨hs, he⟩, hj⟩ := h
  have hn : v ++ r ≠ [] := by
    intro hn
    exact he (.inl (by simp [hn]))
  have hs' := hs.append_right (r := t) hn
  have he' : ¬scope.Ends (v ++ r ++ t) := by
    intro h
    cases h
    case inl h =>
      rw [List.head?_append_of_ne_nil _ hn] at h
      exact he (.inl h)
    case inr h =>
      have ⟨hq, b, hb⟩ := h
      exact hx <| hf.opensLater hn (fun hb => he (.inr ⟨hq, b, hb⟩)) hb
  have hk : Connector.at? (v ++ r) = none → Connector.at? (v ++ r ++ t) = none := by
    intro hk
    by_contra hc
    have ⟨⟨k, w⟩, hc⟩ := Option.ne_none_iff_exists'.mp hc
    simp [Connector.at?_append hc (hf.not_alpha hn)] at hk
  refine ⟨⟨hs', he'⟩, ?_⟩
  cases j
  case adjacent => exact ⟨hj.1, hj.2.1, hk hj.2.2⟩
  case touching => exact ⟨hj.1, hk hj.2⟩
  case connector =>
    have ⟨b₁, w, b₂, hm, hb₁, hw, hb₂, hr⟩ := hj
    refine ⟨b₁, w, b₂, hm, hb₁, hw, hb₂, ?_⟩
    have := hr.append_right (r := t) (by simp [hn])
    simpa using this

theorem Fails.extend (h : Fails n c u x r) (hr : Stops isBlank r.reverse) (hn : r ≠ []) :
    Fails n c u x (r ++ t) := by
  induction h
  case operandMissing h =>
    refine .operandMissing ?_
    rwa [List.head?_append_of_ne_nil _ hn]
  case operandPhrase => contradiction
  case operandGroup h _ hi =>
    refine .operandGroup ?_ (hi hr hn)
    rw [head?_extend hn, h]
  case itemMissing h =>
    refine .itemMissing ?_
    rwa [List.head?_append_of_ne_nil _ hn]
  case itemBlank h => exact .itemBlank h
  case itemPhrase => contradiction
  case itemGroup h _ hi =>
    refine .itemGroup ?_ (hi hr hn)
    rw [head?_extend hn, h]
  case itemValue hw hl _ hi => exact .itemValue hw (hl.congr (head?_extend hn).symm) (hi hr hn)
  case groupOpen h =>
    refine .groupOpen ?_
    rwa [List.head?_append_of_ne_nil _ hn]
  case groupDeep => exact .groupDeep
  case groupInside hb hs _ hi => exact .groupInside hb (hs.extend hn) (hi hr hn)
  case groupUnclosed => contradiction
  case sequenceFirst hi => exact .sequenceFirst (hi hr hn)
  case sequenceEnd b₁ w b₂ r _ _ _ hf hb₁ hw hb₂ hs he =>
    have hf := hf.congr (t := b₁ ++ (w ++ (b₂ ++ r)) ++ t) fun hs => hs.append_right (by simp [hn])
    exact .sequenceEnd (by simpa using hf) hb₁ hw hb₂ (hs.extend hn) (he.append hn)
  case sequenceNext u m v r _ _ _ _ hf hj h hi =>
    have hf := hf.congr (t := m ++ (v ++ r) ++ t) fun hs => hs.append_right (by simp [hn])
    have hj := hj.append (t := t) h (not_opensLater hr hn)
    exact .sequenceNext (by simpa using hf) (by simpa using hj) (hi hr hn)

theorem FacetSpec.Fails.extend (h : FacetSpec.Fails n u x r) (hx : x ≠ .facetName)
    (hr : Stops isBlank r.reverse) (hn : r ≠ []) : FacetSpec.Fails n u x (r ++ t) := by
  cases h
  case name => contradiction
  case filter hw hb ho hf =>
    refine .filter hw hb ?_ (hf.extend hr hn)
    rw [head?_extend hn, ho]

theorem NestedSpec.Fails.extend (h : NestedSpec.Fails n u x r) (hx : x ≠ .facetName)
    (hr : Stops isBlank r.reverse) (hn : r ≠ []) : NestedSpec.Fails n u x (r ++ t) := by
  cases h
  case name => contradiction
  case filter hw hb hs hs' hf =>
    rw [← List.append_assoc] at hs'
    have hs' := hs'.extend (t := t) hn
    exact .filter hw hb (hs.extend hn) (by simpa using hs') (hf.extend hr hn)

section

variable {α : Type} {Found : Nat → α → List Char → List Char → Prop}
variable {Fails : Nat → List Char → Expected → List Char → Prop} {br : Bracket}

theorem EntriesFails.extend (hf : ∀ {a u r}, Found n a u r → ¬IsBlank r → Found n a u (r ++ t))
    (hx : ∀ {u}, Fails n u x r → Fails n u x (r ++ t)) (h : EntriesFails (Found n) (Fails n) u x r)
    (hn : r ≠ []) : EntriesFails (Found n) (Fails n) u x (r ++ t) := by
  induction h
  case unclosed => contradiction
  case first h => exact .first (by simp [hn]) (hx h)
  case next a u s v r _ ha hs hc _ hi =>
    have hv : v ++ r ≠ [] := by simp [hn]
    have ha := hf ha (not_isBlank_of_stops hs.1 hv)
    refine .next (by simpa using ha) (by simpa using hs.extend (t := t) hv) ?_ (hi hx hn)
    rwa [head?_extend hn]

theorem ClauseFails.extend (hf : ∀ {n a u r}, Found n a u r → ¬IsBlank r → Found n a u (r ++ t))
    (hx : ∀ {n u}, Fails n u x r → Fails n u x (r ++ t)) (h : ClauseFails Found Fails br n u x r)
    (hn : r ≠ []) : ClauseFails Found Fails br n u x (r ++ t) := by
  cases h
  case deep hb => exact .deep hb
  case inside hb₁ hb₂ hs h =>
    exact .inside hb₁ hb₂ (hs.extend hn) (h.extend hf hx hn)

end

theorem Part.Fails.extend (h : Part.Fails n u x r) (hx : x ≠ .facetName)
    (hr : Stops isBlank r.reverse) (hn : r ≠ []) : Part.Fails n u x (r ++ t) := by
  cases h
  case facets h => exact .facets (h.extend .extend (fun h => h.extend hx hr hn) hn)
  case nested h => exact .nested (h.extend (fun h _ => h.extend) (fun h => h.extend hx hr hn) hn)
  case parenthesis => exact .parenthesis
  case text hb hp hf =>
    refine .text ?_ ?_ (hf.extend hr hn)
    · intro b ho
      rw [← List.append_assoc] at ho
      exact not_opensLater hr hn (hf.opensLater (by simp [hn]) (hb b) ho)
    · rwa [head?_extend hn]

theorem PartsFails.ne_nil (h : PartsFails n u x r) : u ++ r ≠ [] := by
  induction h
  case first hn _ => simp_all
  case next hp _ _ =>
    have ⟨c, t, hu, _⟩ := hp.head
    simp [hu]

theorem PartsFails.extend (h : PartsFails n u x r) (hx : x ≠ .facetName)
    (hr : Stops isBlank r.reverse) (hn : r ≠ []) : PartsFails n u x (r ++ t) := by
  induction h
  case first hb hs _ hf =>
    exact .first hb (hs.extend hn) (by simp [hn]) (hf.extend hx hr hn)
  case next hb hp _ hi =>
    have hp := hp.extend (t := t) (by simp [hn])
    exact .next hb (by simpa using hp) (hi hx hr hn)

-- What stands in front of the parts is read in the same way if they do not just start with a word.
theorem Drops.extend (h : Drops u v) (hv : ∀ b w, v = b ++ w → IsBlank b → ¬∀ c ∈ w, c.isAlpha) :
    Drops u (v ++ t) := by
  have hn : v ≠ [] := fun hn => hv [] [] (by simp [hn]) isBlank_nil (by simp)
  cases h
  case inl h =>
    have ⟨b, w, hu, hb, hw, hs⟩ := h
    exact .inl ⟨b, w, hu, hb, hw, hs.append_right hn⟩
  case inr h =>
    have ⟨hu, h⟩ := h
    refine .inr ⟨hu, ?_⟩
    intro b s w he hb hs hw
    have ⟨c, y, hc, hcb, hy⟩ := exists_span isBlank v
    have hy' : y ≠ [] := fun hn => hv c y hc hcb (by simp [hn])
    have hs' : s = y ++ t := by
      rw [← dropWhile_append hb hs, ← he, hc, List.append_assoc]
      exact dropWhile_append hcb (hy.append_right hy')
    exact h c y w hc hcb hy (Connector.at?_append (hs' ▸ hw) (hv c y hc hcb))

theorem TypeFound.extend (h : TypeFound d u v)
    (hv : ∀ b w, v = b ++ w → IsBlank b → ¬∀ c ∈ w, c.isAlpha) : TypeFound d u (v ++ t) := by
  have hn : v ≠ [] := fun hn => hv [] [] (by simp [hn]) isBlank_nil (by simp)
  cases h
  case none ho =>
    refine .none fun h => ?_
    cases Parser.opensTypeClause_of_append h
    case inl h => exact ho h
    case inr h =>
      have ⟨c, a, hk, _⟩ := h
      have hk : ['t', 'y', 'p', 'e'] ++ [':'] = v ++ c :: a := hk
      exact hv [] v rfl isBlank_nil <| isAlpha_of_keyword hk (by simp [Char.isAlpha, Char.isLower])
  case some hw hc hb hd =>
    refine .some hw hc ?_ (hd.extend hv)
    rwa [head?_extend hn]

theorem TypeFails.extend (h : TypeFails u x r) (hn : r ≠ []) : TypeFails u x (r ++ t) := by
  cases h
  case malformed hw hn' hc hb => exact .malformed hw hn' hc hb
  case missing ho hs =>
    refine .missing ?_ (hs.append_right hn)
    have ⟨v, hv, hc⟩ := Parser.opensTypeClause_iff.mp ho
    have hv := List.append_cancel_left hv
    subst hv
    refine Parser.opensTypeClause_iff.mpr ⟨r ++ t, rfl, ?_⟩
    rwa [List.head?_append_of_ne_nil _ hn]

theorem Query.Fails.extend (h : Query.Fails n u x r) (hx : x ≠ .facetName)
    (hr : Stops isBlank r.reverse) (hn : r ≠ []) : Query.Fails n u x (r ++ t) := by
  cases h
  case type h => exact .type (h.extend hn)
  case parts ht hf =>
    have ht := ht.extend (t := t) fun _ _ => hf.not_alpha
    exact .parts (by simpa using ht) (hf.extend hx hr hn)

end SearchQuery
