import SearchQuery.Proofs.Sequence

namespace SearchQuery

open Text Cursor

-- The text `m` is read as the junction `j` before `r`, where the sequence goes on.
def Junction.Found (scope : Scope) (m r : List Char) (j : Junction) : Prop :=
  scope.Continues r ∧ match j with
    | adjacent    => IsBlank m ∧ m ≠ [] ∧ Connector.at? r = none
    | touching    => m = [] ∧ Connector.at? r = none
    | connector k =>
      ∃ b₁ w b₂, m = b₁ ++ (w ++ b₂) ∧ IsBlank b₁ ∧ k.Spelling w ∧ IsBlank b₂ ∧
        Stops isWordChar (b₂ ++ r)

-- The text `u` is read as the operand `o` of `op` before `r`.
structure Operand.Found (n : Nat) (op : Operator) (o : Operand) (u r : List Char) : Prop where
  wellFormed : o.WellFormed op
  nesting    : o.nesting ≤ n
  spells     : o.Spells u
  ends       : o.isClosed ∨ Stops isWordChar r

-- The text `u` is read as the item `i` before `r`.
structure Item.Found (n : Nat) (i : Item) (u r : List Char) : Prop where
  wellFormed : i.WellFormed
  nesting    : i.nesting ≤ n
  spells     : i.Spells u
  ends       : i.isClosed ∨ Stops isWordChar r

-- The text `u` is read as the sequence `f` before `r`, the blanks behind it included.
structure Fragment.Found (n : Nat) (scope : Scope) (f : Fragment) (u r : List Char) : Prop where
  wellFormed : f.WellFormed
  avoids     : scope = .query → f.AvoidsBrackets
  nesting    : f.nesting ≤ n
  spells     : ∃ w b, u = w ++ b ∧ f.Spells w ∧ IsBlank b ∧ (f.isClosed ∨ Stops isWordChar (b ++ r))
  ends       : scope.Ends r

variable {n : Nat} {scope : Scope} {left right i : Item} {j : Junction} {f : Fragment}
variable {o : Operand} {op : Operator} {b m t u v r w : List Char}

theorem Connector.Spelling.head (h : Connector.Spelling k w) :
    ∃ c t, w = c :: t ∧ isWordChar c ∧ isBlank c = false := by
  have hk := h.isKeyChar
  cases w
  case nil => exact absurd rfl h.ne_nil
  case cons c w =>
    have hc := isWordChar_of_isKeyChar (hk c (by simp))
    exact ⟨c, w, rfl, hc, not_isBlank_of_isWordChar hc⟩

theorem Scope.Ends.stops (h : scope.Ends r) : Stops isBlank r := by
  cases h
  case inl h =>
    intro c hc
    rw [h c hc]
    rfl
  case inr h =>
    have ⟨_, b, hb⟩ := h
    have ⟨w, t, hr, _⟩ := Bracket.opens_iff.mp hb
    subst hr
    cases b <;> simp [Bracket.keyword, isBlank, blankRanges]

theorem Scope.Ends.stops_word (h : Scope.Ends .group r) (hb : IsBlank b) :
    Stops isWordChar (b ++ r) := by
  by_cases n : b = []
  case neg => exact stops_of_isBlank hb n
  case pos =>
    subst n
    intro c hc
    have := h.resolve_right (by simp) c hc
    simp [this, isWordChar]

namespace Junction

-- A junction which fits between its neighbours is found between them.
theorem Spells.found (hj : j.Joins left f.first) (h : j.Spells left f.first m)
    (hf : f.WellFormed) (hs : f.Spells v) (ht : f.isClosed ∨ Stops isWordChar t)
    (ha : scope = .query → ¬f.first.OpensBracket) : j.Found scope m (v ++ t) := by
  have ⟨c, v', hv, hc, hp, hg⟩ := hs.head hf
  have ⟨w, t', he, hi, hw, hend⟩ := hs.first hf ht
  have hc : scope.Continues (v ++ t) := by
    refine ⟨hs.stops hf, ?_⟩
    intro h
    cases h
    case inl h => exact hp (h c (by simp [hv]))
    case inr h =>
      have ⟨hq, b, hb⟩ := h
      exact hi.not_opens hw (ha hq) hend b (he ▸ hb)
  refine ⟨hc, ?_⟩
  cases j
  case adjacent => exact ⟨h.1, h.2, he ▸ hi.not_connector hw hj hend⟩
  case touching => exact ⟨h, he ▸ hi.not_connector hw hj.1 hend⟩
  case connector k =>
    have ⟨b₁, z, b₂, hm, hb₁, hz, hb₂, _, hn⟩ := h
    refine ⟨b₁, z, b₂, hm, hb₁, hz, hb₂, ?_⟩
    cases b₂
    case nil => simp [hv, hg.mpr (hn rfl), isWordChar]
    case cons d b₂ => simp [isWordChar, hb₂ d]

-- A junction which is found between its neighbours fits there.
theorem Found.spells (h : j.Found scope m (v ++ t)) (hl : left.isClosed ∨ Stops isWordChar (m ++ (v ++ t)))
    (hf : f.WellFormed) (hs : f.Spells v) (ht : f.isClosed ∨ Stops isWordChar t) :
    j.Joins left f.first ∧ j.Spells left f.first m ∧ (scope = .query → ¬f.first.OpensBracket) := by
  have ⟨c, v', hv, hc, hp, hg⟩ := hs.head hf
  have ⟨w, t', he, hi, hw, hend⟩ := hs.first hf ht
  have ⟨⟨_, hn⟩, h⟩ := h
  -- Of the characters a word can end before, only the parenthesis starts an item.
  have hstop : Stops isWordChar (v ++ t) → f.first.isGroup := by
    intro hstop
    have := isWordChar_eq_false.mp (hstop c (by simp [hv]))
    simp_all
  have hcon : Connector.at? (v ++ t) = none → ¬f.first.SpellsConnector :=
    fun h hc => hw.connector hc hend (he ▸ h)
  refine and_assoc.mp ⟨?_, ?_⟩
  · cases j
    case adjacent =>
      have ⟨hb, hm, ha⟩ := h
      exact ⟨hcon ha, hb, hm⟩
    case touching =>
      have ⟨hm, ha⟩ := h
      subst hm
      exact ⟨⟨hcon ha, hl.imp_right hstop⟩, rfl⟩
    case connector k =>
      have ⟨b₁, z, b₂, hm, hb₁, hz, hb₂, hstop'⟩ := h
      refine ⟨trivial, b₁, z, b₂, hm, hb₁, hz, hb₂, ?_, ?_⟩
      · intro hb
        have ⟨d, z', hz', hd, _⟩ := hz.head
        subst hb
        simp [hm, hz', hd] at hl
        exact hl
      · intro hb
        subst hb
        exact hstop hstop'
  · intro hq ho
    have ⟨b, hb⟩ := hw.opens (t := t') ho
    exact hn (.inr ⟨hq, b, he ▸ hb⟩)

end Junction

namespace Fragment

theorem Found.head (h : f.Found n scope u r) : ∃ c t, u = c :: t ∧ isBlank c = false ∧ c ≠ ')' := by
  have ⟨w, b, hu, hw, _⟩ := h.spells
  have ⟨c, t, hc, hs, hp, _⟩ := hw.head h.wellFormed
  exact ⟨c, t ++ b, by simp [hu, hc], hs, hp⟩

theorem Found.stops (h : f.Found n scope u r) : Stops isBlank (u ++ r) := by
  have ⟨c, t, hu, hc, _⟩ := h.head
  simpa [hu] using hc

theorem Found.opens_iff (h : f.Found n scope u r) :
    (∃ b : Bracket, b.opens (u ++ r)) ↔ f.first.OpensBracket := by
  have ⟨w, c, hu, hw, _, ht⟩ := h.spells
  rw [hu, List.append_assoc]
  exact hw.opens_iff h.wellFormed ht

theorem found_single : (single i).Found n scope u r ↔
    ∃ w b, u = w ++ b ∧ i.Found n w (b ++ r) ∧ IsBlank b ∧ scope.Ends r := by
  constructor
  case mp =>
    intro h
    have ⟨w, b, hu, hw, hb, ht⟩ := h.spells
    exact ⟨w, b, hu, ⟨h.wellFormed, h.nesting, hw, ht⟩, hb, h.ends⟩
  case mpr =>
    intro ⟨w, b, hu, hi, hb, he⟩
    exact ⟨hi.wellFormed, fun _ => trivial, hi.nesting, ⟨w, b, hu, hi.spells, hb, hi.ends⟩, he⟩

theorem found_join : (join i j f).Found n scope u r ↔
    ∃ w m v, u = w ++ (m ++ v) ∧ i.Found n w (m ++ (v ++ r)) ∧ j.Found scope m (v ++ r) ∧
      f.Found n scope v r := by
  constructor
  case mp =>
    intro ⟨⟨hi, hj, hf⟩, ha, hn, ⟨x, b, hu, ⟨w, m, v, hx, hw, hm, hv⟩, hb, ht⟩, he⟩
    have ⟨hni, hnf⟩ := Nat.max_le.mp hn
    refine ⟨w, m, v ++ b, by simp [hu, hx], ⟨hi, hni, hw, ?_⟩, ?_, ?_⟩
    · rw [List.append_assoc]
      apply hm.stops hj
      intro hg
      have ⟨c, v', hv', _, _, hc⟩ := hv.head hf
      simp [hv', hc.mpr hg]
    · rw [List.append_assoc]
      exact hm.found hj hf hv ht fun h => (ha h).1
    · exact ⟨hf, fun h => (ha h).2, hnf, ⟨v, b, rfl, hv, hb, ht⟩, he⟩
  case mpr =>
    intro ⟨w, m, v, hu, hi, hm, hf⟩
    have ⟨x, b, hv, hx, hb, ht⟩ := hf.spells
    subst hv
    rw [List.append_assoc] at hi hm
    have ⟨hj, hs, ha⟩ := hm.spells hi.ends hf.wellFormed hx ht
    exact {
      wellFormed := ⟨hi.wellFormed, hj, hf.wellFormed⟩
      avoids     := fun h => ⟨ha h, hf.avoids h⟩
      nesting    := Nat.max_le.mpr ⟨hi.nesting, hf.nesting⟩
      spells     := ⟨w ++ (m ++ x), b, by simp [hu], ⟨w, m, x, rfl, hi.spells, hs, hx⟩, hb, ht⟩
      ends       := hf.ends
    }

-- The text `u` is read as the group of `f`.
def Grouped (n : Nat) (f : Fragment) (u r : List Char) : Prop :=
  ∃ m b w, n = m + 1 ∧ u = '(' :: (b ++ (w ++ [')'])) ∧ IsBlank b ∧ f.Found m .group w (')' :: r)

theorem grouped_iff : f.Grouped n u r ↔
    f.WellFormed ∧ f.nesting + 1 ≤ n ∧ Enclosed (fun w => f.Spells w) u := by
  constructor
  case mp =>
    intro ⟨m, b₁, x, hm, hu, hb₁, hf⟩
    have ⟨w, b₂, hx, hw, hb₂, _⟩ := hf.spells
    have hn := hf.nesting
    exact ⟨hf.wellFormed, by omega, b₁, w, b₂, by simp [hu, hx], hb₁, hw, hb₂⟩
  case mpr =>
    intro ⟨hf, hn, b₁, w, b₂, hu, hb₁, hw, hb₂⟩
    have he : Scope.Ends .group (')' :: r) := .inl (by simp)
    refine ⟨n - 1, b₁, w ++ b₂, by omega, by simp [hu], hb₁, hf, by simp, by omega, ?_, he⟩
    exact ⟨w, b₂, rfl, hw, hb₂, .inr (he.stops_word hb₂)⟩

theorem Grouped.operand (h : f.Grouped n u r) : Operand.Found n op (.group f) u r :=
  have ⟨hw, hn, hs⟩ := grouped_iff.mp h
  ⟨hw, hn, hs, .inl rfl⟩

theorem Grouped.item (h : f.Grouped n u r) : Item.Found n (.group f) u r :=
  have ⟨hw, hn, hs⟩ := grouped_iff.mp h
  ⟨hw, hn, hs, .inl rfl⟩

end Fragment

theorem IsPhrase.operand (h : IsPhrase u t) :
    Operand.Found n op (.atom (.phrase (.ofList u) (.ofList t))) u r :=
  ⟨by simpa using h, Nat.zero_le _, by simp [Atom.literal], .inl rfl⟩

theorem IsPhrase.item (h : IsPhrase u t) :
    Item.Found n (.free (.phrase (.ofList u) (.ofList t))) u r :=
  ⟨by simpa using h, Nat.zero_le _, by simp [Atom.literal], .inl rfl⟩

theorem Operand.Found.compare (hw : IsWord isKeyChar w) (h : o.Found n op u r) :
    Item.Found n (.compare (.ofList w) op o) (w ++ (op.chars ++ u)) r :=
  ⟨⟨by simpa using hw, h.wellFormed⟩, h.nesting, ⟨u, by simp, h.spells⟩, h.ends⟩

namespace Parser

theorem accepts_junction? (h : j.Found scope m r) : Accepts (junction? scope) m (some j) r := by
  have ⟨⟨hs, he⟩, h⟩ := h
  cases j
  case adjacent =>
    have ⟨hb, hm, hc⟩ := h
    have hj : Accepts (junction scope !m.isEmpty) [] (if !m.isEmpty then .adjacent else .touching) r :=
      accepts_junction_none hc
    have hj : Accepts (junction scope !m.isEmpty) [] .adjacent r := by simpa [hm] using hj
    simpa using accepts_junction?_some (u := []) hb hs he hj
  case touching =>
    have ⟨hm, hc⟩ := h
    subst hm
    exact accepts_junction?_some (u := []) isBlank_nil hs he (accepts_junction_none hc)
  case connector k =>
    have ⟨b₁, w, b₂, hm, hb₁, hw, hb₂, hr⟩ := h
    have ⟨c, w', hw', _, hc⟩ := hw.head
    subst hm
    refine accepts_junction?_some hb₁ ?_ ?_ (accepts_junction_connector hw hb₂ hr hs he)
    · simp [hw', hc]
    · simpa using Scope.not_ends_of_spelling hw

theorem accepts_group (ha : ∀ m v t, f.Found m .group v t →
    Accepts (sequence (items (group m)) .group) v f t) (h : f.Grouped n u r) :
    Accepts (group n).run u f r := by
  have ⟨m, b, w, hn, hu, hb, hf⟩ := h
  subst hn hu
  exact accepts_enclosed hb hf.stops (ha _ _ _ hf)

mutual

theorem accepts_operand {n op u r} (o : Operand) (h : o.Found n op u r) :
    Accepts (operand (group n).run) u o r := by
  have ⟨hw, hn, hs, ht⟩ := h
  match o with
  | .atom (.word text) =>
    have hu : u = text.toList := hs
    have ht : Stops isWordChar r := by simpa [Operand.isClosed, Atom.isPhrase] using ht
    have ha := accepts_operand_word (g := (group n).run) hw.1.chars hw.1.ne_nil hw.1.unquoted ht
    simpa [hu] using ha
  | .atom (.phrase literal text) =>
    have hu : u = literal.toList := hs
    have ha := accepts_operand_phrase (g := (group n).run) (r := r) hw
    simpa [hu] using ha
  | .group inner =>
    have ⟨v, hv⟩ := Enclosed.head hs
    have hg : inner.Grouped n u r := Fragment.grouped_iff.mpr ⟨hw, hn, hs⟩
    exact accepts_operand_group (by simp [hv]) <|
      accepts_group (fun _ _ _ h => accepts_sequence inner h) hg

theorem accepts_item {n u r} (i : Item) (h : i.Found n u r) :
    Accepts (item (group n).run) u i r := by
  have ⟨hw, hn, hs, ht⟩ := h
  match i with
  | .compare key op value =>
    have ⟨v, hu, hv⟩ := hs
    have ⟨c, t, hk, hc, hq⟩ := hw.1.head
    have hl := hw.2.longest hv (t := r)
    have ha := accepts_keyed_compare hw.1.chars hw.1.ne_nil hl <|
      accepts_operand value ⟨hw.2, hn, hv, ht⟩
    simp [isKeyChar] at hc
    rw [hu]
    exact accepts_item_keyed (d := c) (by simpa using ha) (by simp [hk]) (by simp_all [StartsKeyed])
  | .free (.word text) =>
    have hu : u = text.toList := hs
    have ht : Stops isWordChar r := by simpa [Item.isClosed, Atom.isPhrase] using ht
    have ⟨c, t, hw', hc, hq⟩ := hw.toIsWord.head
    have ha : Accepts (keyed (group n).run) u (.free (.word text)) r := by
      by_cases hcolon : ':' ∈ text.toList
      case pos => simpa [hu] using accepts_keyed_colon hw.chars (hw.colon hcolon) ht
      case neg =>
        have hk : ∀ d ∈ text.toList, isKeyChar d := by
          intro d hd
          have := hw.chars d hd
          simp_all [isKeyChar, isWordChar]
          grind
        simpa [hu] using accepts_keyed_word hk hw.ne_nil ht
    simp [isWordChar] at hc
    exact accepts_item_keyed (d := c) ha (by simp [hu, hw']) (by simp_all [StartsKeyed])
  | .free (.phrase literal text) =>
    have hu : u = literal.toList := hs
    have ha := accepts_item_phrase (g := (group n).run) (r := r) hw
    simpa [hu] using ha
  | .group inner =>
    have ⟨v, hv⟩ := Enclosed.head hs
    have hg : inner.Grouped n u r := Fragment.grouped_iff.mpr ⟨hw, hn, hs⟩
    exact accepts_item_group (by simp [hv]) <|
      accepts_group (fun _ _ _ h => accepts_sequence inner h) hg

theorem accepts_sequence {n scope u r} (f : Fragment) (h : f.Found n scope u r) :
    Accepts (sequence (items (group n)) scope) u f r := by
  match f with
  | .single i =>
    have ⟨w, b, hu, hi, hb, he⟩ := Fragment.found_single.mp h
    rw [hu]
    exact accepts_sequence_single (accepts_item i hi) (accepts_junction?_none hb he.stops he)
  | .join i j rest =>
    have ⟨w, m, v, hu, hi, hj, hf⟩ := Fragment.found_join.mp h
    rw [hu]
    exact accepts_sequence_join (accepts_item i hi) (accepts_junction? hj) (accepts_sequence rest hf)

end

end Parser

end SearchQuery
