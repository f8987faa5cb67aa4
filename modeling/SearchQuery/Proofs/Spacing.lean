import SearchQuery.Proofs.Collapse

namespace SearchQuery

open Text Cursor

-- What is related to a text stays so when the blanks in it and behind it are collapsed.
def Collapses (R : List Char → List Char → Prop) : Prop :=
  ∀ ⦃u r⦄, '"' ∉ u → R u r → Splits u r ∧ R (collapse u) (collapse r)

variable {n : Nat} {scope : Scope} {op : Operator} {o : Operand} {i left right : Item}
variable {j : Junction} {f : Fragment} {b m r s t u v w : List Char} {x : Expected}

theorem IsWord.not_blank (h : IsWord isKeyChar w) : ∀ c ∈ w, isBlank c = false :=
  fun c hc => not_isBlank_of_isKeyChar (h.chars c hc)

theorem IsName.not_blank (h : IsName w) : ∀ c ∈ w, isBlank c = false :=
  fun c hc => not_isBlank_of_isNameChar (h.chars c hc)

theorem collapse_connector {k : Connector} (hw : k.Spelling w) :
    collapse (b ++ (w ++ t)) = collapse b ++ (w ++ collapse t) := by
  have ⟨d, v, hd, _, hb⟩ := hw.head
  have hs : Splits b (w ++ t) := .inr (by simpa [hd] using hb)
  rw [collapse_append hs, collapse_append_left hw.not_blank]

theorem Junction.Spells.collapsed (h : j.Spells left right m) :
    j.Spells left right (collapse m) := by
  cases j
  case adjacent => exact ⟨isBlank_collapse h.1, mt collapse_eq_nil_iff.mp h.2⟩
  case touching =>
    have hm : m = [] := h
    subst hm
    exact rfl
  case connector k =>
    obtain ⟨b₁, w, b₂, hm, hb₁, hw, hb₂, hl, hr⟩ := h
    refine ⟨_, w, _, hm ▸ collapse_connector hw, isBlank_collapse hb₁, hw, isBlank_collapse hb₂, ?_⟩
    simpa only [collapse_eq_nil_iff] using ⟨hl, hr⟩

theorem Enclosed.collapsed {inside : List Char → Prop} (h : Enclosed inside u) (hq : '"' ∉ u)
    (hi : ∀ w, '"' ∉ w → inside w →
      (∀ t, Stops isBlank (w ++ t)) ∧ Stops isBlank w.reverse ∧ inside (collapse w)) :
    Stops isBlank u.reverse ∧ Enclosed inside (collapse u) := by
  have ⟨b₁, w, b₂, hu, hb₁, hw, hb₂⟩ := h
  subst hu
  simp at hq
  have ⟨hs, hr, hw⟩ := hi w (by simp [hq]) hw
  have hp : isBlank ')' = false := rfl
  refine ⟨by simp [hp], _, _, _, ?_, isBlank_collapse hb₁, hw, isBlank_collapse hb₂⟩
  rw [collapse_cons rfl, collapse_append (.inr (hs _)), collapse_append (.inl hr),
    collapse_append (.inr (stops_cons.mpr hp)), collapse_cons hp, collapse_nil]

mutual

theorem Operand.Spells.collapsed {op u} (o : Operand) (hw : o.WellFormed op) (h : o.Spells u)
    (hq : '"' ∉ u) : Stops isBlank u.reverse ∧ o.Spells (collapse u) := by
  match o with
  | .atom (.word text) =>
    have hu : u = text.toList := h
    have hb : ∀ c ∈ u, isBlank c = false := fun c hc =>
      not_isBlank_of_isWordChar (hw.1.chars c (hu ▸ hc))
    exact ⟨stops_reverse_of_forall hb, by rwa [collapse_eq_self hb]⟩
  | .atom (.phrase literal text) =>
    have ⟨t, ht⟩ := hw.head
    have hu : u = literal.toList := h
    simp [hu, ht] at hq
  | .group inner =>
    exact Enclosed.collapsed h hq fun w hq hi =>
      ⟨fun _ => hi.stops hw, Fragment.Spells.collapsed inner hw hi hq⟩

theorem Item.Spells.collapsed {u} (i : Item) (hw : i.WellFormed) (h : i.Spells u) (hq : '"' ∉ u) :
    Stops isBlank u.reverse ∧ i.Spells (collapse u) := by
  match i with
  | .compare key op value =>
    have ⟨v, hu, hv⟩ := h
    have ⟨c, t, hc, _⟩ := hv.head hw.2
    have ⟨hs, hv⟩ := Operand.Spells.collapsed value hw.2 hv (by simp_all)
    refine ⟨?_, _, ?_, hv⟩
    · rwa [hu, ← List.append_assoc, stops_reverse_append (by simp [hc])]
    · rw [hu, collapse_append_left hw.1.not_blank, collapse_append_left op.chars_not_blank]
  | .free (.word text) =>
    have hu : u = text.toList := h
    have hb : ∀ c ∈ u, isBlank c = false := fun c hc =>
      not_isBlank_of_isWordChar (hw.chars c (hu ▸ hc))
    exact ⟨stops_reverse_of_forall hb, by rwa [collapse_eq_self hb]⟩
  | .free (.phrase literal text) =>
    have ⟨t, ht⟩ := hw.head
    have hu : u = literal.toList := h
    simp [hu, ht] at hq
  | .group inner =>
    exact Enclosed.collapsed h hq fun w hq hi =>
      ⟨fun _ => hi.stops hw, Fragment.Spells.collapsed inner hw hi hq⟩

theorem Fragment.Spells.collapsed {u} (f : Fragment) (hw : f.WellFormed) (h : f.Spells u)
    (hq : '"' ∉ u) : Stops isBlank u.reverse ∧ f.Spells (collapse u) := by
  match f with
  | .single i => exact Item.Spells.collapsed i hw h hq
  | .join i j rest =>
    have ⟨w, m, v, hu, hi, hj, hv⟩ := h
    have ⟨c, t, hc, _⟩ := hv.head hw.2.2
    have hs : Stops isBlank v := by simpa using hv.stops hw.2.2 (t := [])
    have ⟨hsi, hi⟩ := Item.Spells.collapsed i hw.1 hi (by simp_all)
    have ⟨hsv, hv⟩ := Fragment.Spells.collapsed rest hw.2.2 hv (by simp_all)
    refine ⟨?_, _, _, _, ?_, hi, hj.collapsed, hv⟩
    · rwa [hu, ← List.append_assoc, stops_reverse_append (by simp [hc])]
    · rw [hu, collapse_append (.inl hsi), collapse_append (.inr hs)]

end

theorem Item.Found.collapsed (h : i.Found n u r) (hq : '"' ∉ u) :
    Stops isBlank u.reverse ∧ i.Found n (collapse u) (collapse r) := by
  have ⟨hs, hi⟩ := Item.Spells.collapsed i h.wellFormed h.spells hq
  exact ⟨hs, h.wellFormed, h.nesting, hi, h.ends.imp_right stops_isWordChar_collapse.mpr⟩

theorem Junction.Found.collapsed (h : j.Found scope m r) :
    j.Found scope (collapse m) (collapse r) := by
  have ⟨⟨hs, he⟩, h⟩ := h
  refine ⟨⟨stops_isBlank_collapse.mpr hs, mt Scope.ends_collapse.mp he⟩, ?_⟩
  cases j
  case adjacent =>
    have ⟨hb, hn, hc⟩ := h
    exact ⟨isBlank_collapse hb, mt collapse_eq_nil_iff.mp hn, Connector.at?_collapse.trans hc⟩
  case touching =>
    have ⟨hm, hc⟩ := h
    exact ⟨collapse_eq_nil_iff.mpr hm, Connector.at?_collapse.trans hc⟩
  case connector k =>
    have ⟨b₁, w, b₂, hm, hb₁, hw, hb₂, ht⟩ := h
    refine ⟨_, w, _, hm ▸ collapse_connector hw, isBlank_collapse hb₁, hw, isBlank_collapse hb₂, ?_⟩
    rwa [← collapse_append (.inr hs), stops_isWordChar_collapse]

theorem Fragment.Found.collapsed (h : f.Found n scope u r) (hq : '"' ∉ u) :
    f.Found n scope (collapse u) (collapse r) := by
  have ⟨w, b, hu, hw, hb, ht⟩ := h.spells
  have hr : Splits b r := .inr h.ends.stops
  have ⟨hs, hw⟩ := Fragment.Spells.collapsed f h.wellFormed hw (by simp_all)
  refine ⟨h.wellFormed, h.avoids, h.nesting, ?_, Scope.ends_collapse.mpr h.ends⟩
  refine ⟨_, _, hu ▸ collapse_append (.inl hs), hw, isBlank_collapse hb, ?_⟩
  rwa [← collapse_append hr, stops_isWordChar_collapse]

theorem Fragment.Grouped.collapsed (h : f.Grouped n u r) (hq : '"' ∉ u) :
    Stops isBlank u.reverse ∧ f.Grouped n (collapse u) (collapse r) := by
  have ⟨hw, hn, he⟩ := grouped_iff.mp h
  have ⟨hs, he⟩ := he.collapsed hq fun w hq hi =>
    ⟨fun _ => hi.stops hw, Fragment.Spells.collapsed f hw hi hq⟩
  exact ⟨hs, grouped_iff.mpr ⟨hw, hn, he⟩⟩

theorem Fails.collapsed (h : Fails n c u x r) (hq : '"' ∉ u) :
    Splits u r ∧ Fails n c (collapse u) x (collapse r) := by
  induction h
  case operandMissing h =>
    refine ⟨.nil_left, .operandMissing ((forall_head?_collapse fun c hc => ?_).mpr h)⟩
    simp [hc, isBlank_space_eq]
  case operandPhrase => simp at hq
  case operandGroup ho _ hi =>
    obtain ⟨hs, h⟩ := hi hq
    refine ⟨hs, .operandGroup ?_ h⟩
    rwa [← collapse_append hs, head?_collapse_iff rfl]
  case itemMissing h =>
    exact ⟨.nil_left, .itemMissing (head?_collapse_close.mpr h)⟩
  case itemBlank c n r hc =>
    obtain ⟨t, ht⟩ : ∃ t, collapse (c :: r) = ' ' :: t :=
      List.head?_eq_some_iff.mp (by simp [head?_collapse, hc])
    exact ⟨.nil_left, ht ▸ .itemBlank isBlank_space_eq⟩
  case itemPhrase => simp at hq
  case itemGroup ho _ hi =>
    obtain ⟨hs, h⟩ := hi hq
    refine ⟨hs, .itemGroup ?_ h⟩
    rwa [← collapse_append hs, head?_collapse_iff rfl]
  case itemValue op hw hl _ hi =>
    obtain ⟨hs, h⟩ := hi (by simp_all)
    refine ⟨.append_left hw.not_blank (.append_left op.chars_not_blank hs), ?_⟩
    rw [collapse_append_left hw.not_blank, collapse_append_left op.chars_not_blank]
    exact .itemValue hw (collapse_append hs ▸ hl.collapse) h
  case groupOpen ho => exact ⟨.nil_left, .groupOpen (mt (head?_collapse_iff rfl).mp ho)⟩
  case groupDeep =>
    refine ⟨.nil_left, ?_⟩
    rw [collapse_cons rfl]
    exact .groupDeep
  case groupInside b _ _ _ _ hb hr _ hi =>
    obtain ⟨hs, h⟩ := hi (by simp_all)
    obtain ⟨hs', he⟩ := hs.behind (b := b) hr
    refine ⟨.append_left (w := ['(']) (by simp [isBlank, blankRanges]) hs', ?_⟩
    rw [collapse_cons rfl, he]
    exact .groupInside (isBlank_collapse hb) (collapse_append hs ▸ stops_isBlank_collapse.mpr hr) h
  case groupUnclosed b n u f hb hf =>
    have hs : Splits b u := .left (.inr hf.stops)
    refine ⟨.inr stops_nil, ?_⟩
    rw [collapse_cons rfl, collapse_append hs]
    exact .groupUnclosed (isBlank_collapse hb) (hf.collapsed (by simp_all))
  case sequenceFirst hi =>
    obtain ⟨hs, h⟩ := hi hq
    exact ⟨hs, .sequenceFirst h⟩
  case sequenceEnd n u b₁ w b₂ r scope i k hf hb₁ hw hb₂ ht he =>
    have hr : Splits b₂ r := .inr he.stops
    obtain ⟨hs, hf⟩ := hf.collapsed (by simp_all)
    refine ⟨.inr he.stops, ?_⟩
    rw [collapse_append (.inl hs), collapse_connector hw]
    rw [collapse_connector hw, collapse_append hr] at hf
    rw [← stops_isWordChar_collapse, collapse_append hr] at ht
    exact .sequenceEnd hf (isBlank_collapse hb₁) hw (isBlank_collapse hb₂) ht
      (Scope.ends_collapse.mpr he)
  case sequenceNext u m v r scope x i j hf hj _ hi =>
    have hm : Splits m (v ++ r) := .inr hj.1.stops
    obtain ⟨hs, hf⟩ := hf.collapsed (by simp_all)
    obtain ⟨hv, h⟩ := hi (by simp_all)
    refine ⟨.append (.inl hs) (.append hm hv), ?_⟩
    rw [collapse_append (.inl hs), collapse_append hm.left]
    rw [collapse_append hm, collapse_append hv] at hf
    exact .sequenceNext hf (collapse_append hv ▸ hj.collapsed) h

theorem IsName.behind (hw : IsName w) (hb : IsBlank b) (h : Splits u r)
    (hr : Stops isBlank (u ++ r)) : Splits (w ++ (b ++ u)) r ∧ IsBlank (collapse b) ∧
      collapse (w ++ (b ++ u)) = w ++ (collapse b ++ collapse u) := by
  have ⟨hs, he⟩ := h.behind (b := b) hr
  exact ⟨.append_left hw.not_blank hs, isBlank_collapse hb, he ▸ collapse_append_left hw.not_blank⟩

theorem FacetSpec.Found.collapsed {spec : FacetSpec} : Collapses (spec.Found n) := by
  intro u r hq h
  cases h
  case bare b r hb hs ho ht hw =>
    refine ⟨.inl (stops_reverse_of_forall hw.not_blank), ?_⟩
    rw [collapse_eq_self hw.not_blank, collapse_append (.inr hs)]
    refine .bare hw (isBlank_collapse hb) (stops_isBlank_collapse.mpr hs) ?_ ?_
    · rwa [← collapse_append (.inr hs), stops_isNameChar_collapse]
    · exact mt (head?_collapse_iff rfl).mp ht
  case filtered hw hb hg =>
    have ho := stops_of_open (Parser.grouped_head hg)
    have ⟨hs, hg⟩ := hg.collapsed (by simp_all)
    have ⟨hs, hb, he⟩ := hw.behind hb (.inl hs) ho
    exact ⟨hs, he ▸ .filtered hw hb hg⟩

theorem NestedSpec.Found.collapsed {spec : NestedSpec} : Collapses (spec.Found n) := by
  intro u r hq h
  cases h
  case intro hw hb hg =>
    have ho := stops_of_open (Parser.grouped_head hg)
    have ⟨hs, hg⟩ := hg.collapsed (by simp_all)
    have ⟨hs, hb, he⟩ := hw.behind hb (.inl hs) ho
    exact ⟨hs, he ▸ .intro hw hb hg⟩

theorem FacetSpec.Fails.collapsed : Collapses fun u r => FacetSpec.Fails n u x r := by
  intro u r hq h
  cases h
  case name w r hw hd hr =>
    have hb : ∀ c ∈ w, isBlank c = false := fun c hc => not_isBlank_of_isNameChar (hw c hc)
    refine ⟨.nil_left, ?_⟩
    rw [collapse_append_left hb]
    exact .name hw hd (stops_isNameChar_collapse.mpr hr)
  case filter hw hb ho hf =>
    have ⟨hs, hf⟩ := hf.collapsed (by simp_all)
    have ⟨hs', hb, he⟩ := hw.behind hb hs (stops_of_open ho)
    refine ⟨hs', he ▸ .filter hw hb ?_ hf⟩
    rwa [← collapse_append hs, head?_collapse_iff rfl]

theorem NestedSpec.Fails.collapsed : Collapses fun u r => NestedSpec.Fails n u x r := by
  intro u r hq h
  cases h
  case name w r hw hd hr =>
    have hb : ∀ c ∈ w, isBlank c = false := fun c hc => not_isBlank_of_isNameChar (hw c hc)
    refine ⟨.nil_left, ?_⟩
    rw [collapse_append_left hb]
    exact .name hw hd (stops_isNameChar_collapse.mpr hr)
  case filter hw hb ho hn hf =>
    have ⟨hs, hf⟩ := hf.collapsed (by simp_all)
    have ⟨hs', hb, he⟩ := hw.behind hb hs ho
    refine ⟨hs', he ▸ .filter hw hb ?_ ?_ hf⟩
    · rwa [← collapse_append hs, stops_isBlank_collapse]
    · rwa [← collapse_append hs, ← collapse_append (.inr ho), stops_isNameChar_collapse]

theorem Separates.collapsed (h : Separates s r) : Separates (collapse s) (collapse r) := by
  have ⟨hr, b₁, b₂, hb₁, hb₂, hs⟩ := h
  refine ⟨stops_isBlank_collapse.mpr hr, _, _, isBlank_collapse hb₁, isBlank_collapse hb₂, ?_⟩
  cases hs
  case inl hs =>
    have hc : Splits b₁ (',' :: b₂) := .inr (stops_cons.mpr rfl)
    rw [hs, collapse_append hc, collapse_cons rfl]
    exact .inl rfl
  case inr hs => exact .inr ⟨hs.1 ▸ rfl, mt (head?_collapse_iff rfl).mp hs.2⟩

section

variable {α : Type} {Found : α → List Char → List Char → Prop} {as : List α}
variable {Fails : List Char → Expected → List Char → Prop}

-- An entry, what separates it from the next text, and that text can be collapsed one by one.
theorem Separates.behind (hf : ∀ a, Collapses (Found a)) (hs : Separates s (v ++ r))
    (ha : Found a u (s ++ (v ++ r))) (hq : '"' ∉ u) (hv : Splits v r) :
    Splits (u ++ (s ++ v)) r ∧
    collapse (u ++ (s ++ v)) = collapse u ++ (collapse s ++ collapse v) ∧
    Found a (collapse u) (collapse s ++ (collapse v ++ collapse r)) ∧
    Separates (collapse s) (collapse v ++ collapse r) := by
  have hsp : Splits s (v ++ r) := .inr hs.1
  have ⟨hu, ha⟩ := hf a hq ha
  have hu' : Splits u (s ++ v) := .left (r := r) (by simpa using hu)
  refine ⟨.append (by simpa using hu) (.append hsp hv), ?_, ?_, collapse_append hv ▸ hs.collapsed⟩
  · rw [collapse_append hu', collapse_append hsp.left]
  · rwa [collapse_append hsp, collapse_append hv] at ha

theorem EntriesFound.collapsed (hf : ∀ a, Collapses (Found a)) :
    Collapses (EntriesFound Found as) := by
  intro u r hq h
  induction h
  case last ha hs =>
    have hp : isBlank ']' = false := rfl
    have ⟨hs', he, ha, hs⟩ := hs.behind (v := [']']) hf ha (by simp_all) (.inl (by simpa using hp))
    rw [collapse_cons hp, collapse_nil] at ha he hs
    exact ⟨hs', he ▸ .last ha hs⟩
  case cons ha hs hn _ hi =>
    have ⟨hv, hi⟩ := hi (by simp_all)
    have ⟨hs', he, ha, hs⟩ := hs.behind hf ha (by simp_all) hv
    refine ⟨hs', he ▸ .cons ha hs ?_ hi⟩
    rwa [← collapse_append hv, ne_eq, head?_collapse_iff rfl]

theorem EntriesFails.collapsed (hf : ∀ a, Collapses (Found a))
    (hg : ∀ x, Collapses fun u r => Fails u x r) :
    Collapses fun u r => EntriesFails Found Fails u x r := by
  intro u r hq h
  induction h
  case unclosed => exact ⟨.nil_left, .unclosed⟩
  case first hn h =>
    have ⟨hs, h⟩ := hg _ hq h
    refine ⟨hs, .first ?_ h⟩
    rwa [← collapse_append hs, ne_eq, collapse_eq_nil_iff]
  case next ha hs hn _ hi =>
    have ⟨hv, hi⟩ := hi (by simp_all)
    have ⟨hs', he, ha, hs⟩ := hs.behind hf ha (by simp_all) hv
    refine ⟨hs', he ▸ .next ha hs ?_ hi⟩
    rwa [← collapse_append hv, ne_eq, head?_collapse_iff rfl]

end

section

variable {α : Type} {Found : Nat → α → List Char → List Char → Prop} {as : List α} {br : Bracket}
variable {Fails : Nat → List Char → Expected → List Char → Prop}

theorem Bracket.behind (br : Bracket) (h : Splits u r) (hr : Stops isBlank (u ++ r)) :
    Splits (br.keyword ++ (b ++ '[' :: (t ++ u))) r ∧
    collapse (br.keyword ++ (b ++ '[' :: (t ++ u))) =
      br.keyword ++ (collapse b ++ '[' :: (collapse t ++ collapse u)) := by
  have hp : isBlank '[' = false := rfl
  have ⟨hs, he⟩ := h.behind (b := t) hr
  have ⟨hs, he'⟩ := Splits.behind (b := b) (u := '[' :: (t ++ u)) (r := r)
    (.append_left (w := ['[']) (by simpa using hp) hs) (stops_cons.mpr hp)
  refine ⟨.append_left br.keyword_not_blank hs, ?_⟩
  rw [collapse_append_left br.keyword_not_blank, he', collapse_cons hp, he]

theorem ClauseFound.collapsed (hf : ∀ n a, Collapses (Found n a)) :
    Collapses (ClauseFound Found br n as) := by
  intro u r hq h
  cases h
  case intro b₁ b₂ u n hb₁ hb₂ hr he =>
    have ⟨hs, he⟩ := EntriesFound.collapsed (hf n) (by simp_all) he
    have ⟨hs', hc⟩ := br.behind (b := b₁) (t := b₂) hs hr
    refine ⟨hs', hc ▸ .intro (isBlank_collapse hb₁) (isBlank_collapse hb₂) ?_ he⟩
    rwa [← collapse_append hs, stops_isBlank_collapse]

theorem ClauseFails.collapsed (hf : ∀ n a, Collapses (Found n a))
    (hg : ∀ n x, Collapses fun u r => Fails n u x r) :
    Collapses fun u r => ClauseFails Found Fails br n u x r := by
  intro u r hq h
  cases h
  case deep hb =>
    have hp : isBlank '[' = false := rfl
    refine ⟨.inr (stops_cons.mpr hp), ?_⟩
    rw [collapse_append_left br.keyword_not_blank, collapse_cons hp]
    exact .deep (isBlank_collapse hb)
  case inside b₁ b₂ u n hb₁ hb₂ hr he =>
    have ⟨hs, he⟩ := EntriesFails.collapsed (hf n) (hg n) (by simp_all) he
    have ⟨hs', hc⟩ := br.behind (b := b₁) (t := b₂) hs hr
    refine ⟨hs', hc ▸ .inside (isBlank_collapse hb₁) (isBlank_collapse hb₂) ?_ he⟩
    rwa [← collapse_append hs, stops_isBlank_collapse]

end

theorem Part.Found.collapsed {p : Part} : Collapses (p.Found n) := by
  intro u r hq h
  cases h
  case facets h =>
    have ⟨hs, h⟩ := ClauseFound.collapsed (fun _ _ => FacetSpec.Found.collapsed) hq h
    exact ⟨hs, .facets h⟩
  case nested h =>
    have ⟨hs, h⟩ := ClauseFound.collapsed (fun _ _ => NestedSpec.Found.collapsed) hq h
    exact ⟨hs, .nested h⟩
  case text hb hf => exact ⟨.inr hf.ends.stops, .text hb (hf.collapsed hq)⟩

theorem Part.Fails.collapsed : Collapses fun u r => Part.Fails n u x r := by
  intro u r hq h
  cases h
  case facets h =>
    have ⟨hs, h⟩ := ClauseFails.collapsed (fun _ _ => FacetSpec.Found.collapsed)
      (fun _ _ => FacetSpec.Fails.collapsed) hq h
    exact ⟨hs, .facets h⟩
  case nested h =>
    have ⟨hs, h⟩ := ClauseFails.collapsed (fun _ _ => NestedSpec.Found.collapsed)
      (fun _ _ => NestedSpec.Fails.collapsed) hq h
    exact ⟨hs, .nested h⟩
  case parenthesis =>
    refine ⟨.nil_left, ?_⟩
    rw [collapse_cons rfl]
    exact .parenthesis
  case text hb hp hf =>
    have ⟨hs, hf⟩ := hf.collapsed hq
    refine ⟨hs, .text ?_ ?_ hf⟩
    · intro b
      rw [← collapse_append hs, Bracket.opens_collapse]
      exact hb b
    · rwa [← collapse_append hs, ne_eq, head?_collapse_iff rfl]

theorem PartsFound.collapsed {ps : List Part} (h : PartsFound n ps u) (hq : '"' ∉ u) :
    PartsFound n ps (collapse u) := by
  induction h
  case nil hb => exact .nil (isBlank_collapse hb)
  case cons b p u v ps hb hp _ hi =>
    have ⟨c, t, hu, hc⟩ := hp.head
    have hr : Splits b (u ++ v) := .inr (by simp [hu, hc])
    have ⟨hs, hp⟩ := Part.Found.collapsed (by simp_all) hp
    rw [collapse_append hr, collapse_append hs]
    exact .cons (isBlank_collapse hb) hp (hi (by simp_all))

theorem PartsFails.collapsed : Collapses fun u r => PartsFails n u x r := by
  intro u r hq h
  induction h
  case first b u r x hb hr hn hf =>
    have ⟨hs, hf⟩ := Part.Fails.collapsed (by simp_all) hf
    have ⟨hs', he⟩ := hs.behind (b := b) hr
    refine ⟨hs', he ▸ .first (isBlank_collapse hb) ?_ ?_ hf⟩
    · rwa [← collapse_append hs, stops_isBlank_collapse]
    · rwa [← collapse_append hs, ne_eq, collapse_eq_nil_iff]
  case next b p u v r x hb hp _ hi =>
    have ⟨c, t, hu, hc⟩ := hp.head
    have ⟨hv, hi⟩ := hi (by simp_all)
    have ⟨hs, hp⟩ := Part.Found.collapsed (by simp_all) hp
    have ⟨hs', he⟩ := Splits.behind (b := b) (hs.append hv) (by simp [hu, hc])
    rw [collapse_append hv] at hp
    refine ⟨hs', ?_⟩
    rw [he, collapse_append hs.left]
    exact .next (isBlank_collapse hb) hp hi

theorem Drops.collapsed (h : Drops d r) : Drops (collapse d) (collapse r) := by
  cases h
  case inl h =>
    have ⟨b, w, hd, hb, hw, hr⟩ := h
    refine .inl ⟨collapse b, w, ?_, isBlank_collapse hb, hw, stops_isWordChar_collapse.mpr hr⟩
    simpa [hd] using collapse_connector (b := b) (t := []) hw
  case inr h =>
    have ⟨hd, ha⟩ := h
    refine .inr ⟨by simp [hd], ?_⟩
    intro b t w he hb ht
    have ⟨c, v, hr, hc, hv⟩ := exists_span isBlank r
    have hcv : collapse r = collapse c ++ collapse v := hr ▸ collapse_append (.inr hv)
    have hdrop := congrArg (·.dropWhile isBlank) (hcv.symm.trans he)
    simp only [dropWhile_append hb ht,
      dropWhile_append (isBlank_collapse hc) (stops_isBlank_collapse.mpr hv)] at hdrop
    rw [← hdrop, Connector.at?_collapse]
    exact ha c v w hr hc hv

theorem Drops.splits (h : Drops d r) : Splits d r := by
  cases h
  case inl h =>
    have ⟨b, w, hd, _, hw, _⟩ := h
    left
    rw [hd, stops_reverse_append hw.ne_nil]
    exact stops_reverse_of_forall hw.not_blank
  case inr h => exact h.1 ▸ .nil_left

theorem TypeFound.collapsed (h : TypeFound docType u r) :
    Splits u r ∧ TypeFound docType (collapse u) (collapse r) := by
  cases h
  case none ho => exact ⟨.nil_left, .none (mt Parser.opensTypeClause_collapse.mp ho)⟩
  case some w d hn hw hb hd =>
    have hw' : ∀ c ∈ w, isBlank c = false := fun c hc => not_isBlank_of_isTypeChar (hw c hc)
    have hk := Parser.typeKeyword_not_blank
    refine ⟨.append_left hk (.append_left hw' hd.splits), ?_⟩
    rw [collapse_append_left hk, collapse_append_left hw']
    refine .some hn hw ?_ hd.collapsed
    rw [← collapse_append hd.splits]
    exact (forall_head?_collapse fun c hc => by simp [hc, isBlank_space_eq]).mpr hb

theorem TypeFails.collapsed (h : TypeFails u x r) :
    Splits u r ∧ TypeFails (collapse u) x (collapse r) := by
  have hk := Parser.typeKeyword_not_blank
  cases h
  case missing ho hr =>
    refine ⟨.inl (stops_reverse_of_forall hk), ?_⟩
    rw [collapse_eq_self hk]
    refine .missing ?_ (stops_isTypeChar_collapse.mpr hr)
    rwa [← collapse_append_left hk, Parser.opensTypeClause_collapse]
  case malformed w c r hn hw hc hb =>
    have hw' : ∀ c ∈ w, isBlank c = false := fun c hc => not_isBlank_of_isTypeChar (hw c hc)
    refine ⟨.inr (stops_cons.mpr hb), ?_⟩
    rw [collapse_append_left hk, collapse_eq_self hw', collapse_cons hb]
    exact .malformed hn hw hc hb

theorem Query.Found.collapsed {q : Query} (h : q.Found n u) (hq : '"' ∉ u) :
    q.Found n (collapse u) := by
  have ⟨v, w, hu, hv, hw⟩ := h
  have ⟨hs, hv⟩ := hv.collapsed
  exact ⟨_, _, hu ▸ collapse_append hs, hv, hw.collapsed (by simp_all)⟩

theorem Query.Fails.collapsed (h : Query.Fails n u x r) (hq : '"' ∉ u) :
    Splits u r ∧ Query.Fails n (collapse u) x (collapse r) := by
  cases h
  case type h =>
    have ⟨hs, h⟩ := h.collapsed
    exact ⟨hs, .type h⟩
  case parts ht hf =>
    have ⟨hs, ht⟩ := ht.collapsed
    have ⟨hs', hf⟩ := PartsFails.collapsed (by simp_all) hf
    refine ⟨.append hs hs', ?_⟩
    rw [collapse_append hs.left]
    exact .parts (collapse_append hs' ▸ ht) hf

theorem Query.normalize_collapse {text : String} (hl : '\n' ∉ text.toList) :
    Query.normalize (.ofList (collapse text.toList)) = collapse (Query.normalize text) := by
  have hf : text.toList.filter (· ≠ '\n') = text.toList :=
    List.filter_eq_self.mpr fun c hc => decide_eq_true fun he => hl (he ▸ hc)
  have hf' : (collapse text.toList).filter (· ≠ '\n') = collapse text.toList := by
    refine List.filter_eq_self.mpr fun c hc => decide_eq_true fun he => ?_
    have := mem_of_mem_collapse (he ▸ hc)
    simp [hl] at this
  rw [Query.normalize, Query.normalize, String.toList_ofList, hf, hf', trim_collapse]

-- Whether a query compiles, and to which document, does not depend on how its blanks are written.
-- If it does not, then the same is missing at the same place.
theorem compile_collapse (options : CompilerOptions) (text : String) (hq : '"' ∉ text.toList)
    (hl : '\n' ∉ text.toList) :
    (∀ d, compile options text = .ok d ↔
      compile options (.ofList (collapse text.toList)) = .ok d) ∧
    ∀ e, compile options text = .error e →
      ∃ u r, Query.normalize text = u ++ r ∧ e.offset = size u ∧
        compile options (.ofList (collapse text.toList)) = .error ⟨size (collapse u), e.expected⟩ := by
  have hn : '"' ∉ Query.normalize text := fun h =>
    hq (List.mem_of_mem_filter (mem_of_mem_trim h))
  have ok (d : Document) (h : compile options text = .ok d) :
      compile options (.ofList (collapse text.toList)) = .ok d := by
    have ⟨q, hf, hd⟩ := compile_eq_ok_iff.mp h
    exact compile_eq_ok_iff.mpr ⟨q, Query.normalize_collapse hl ▸ hf.collapsed hn, hd⟩
  have error (e : ParseError) (h : compile options text = .error e) :
      ∃ u r, Query.normalize text = u ++ r ∧ e.offset = size u ∧
        compile options (.ofList (collapse text.toList)) = .error ⟨size (collapse u), e.expected⟩ := by
    have ⟨u, x, r, hu, hf, he⟩ := compile_eq_error_iff.mp h
    have ⟨hs, hf⟩ := hf.collapsed (by simp_all)
    have hc := Query.normalize_collapse hl
    rw [hu, collapse_append hs] at hc
    subst he
    exact ⟨u, r, hu, rfl, compile_eq_error_iff.mpr ⟨_, _, _, hc, hf, rfl⟩⟩
  refine ⟨fun d => ⟨ok d, fun h => ?_⟩, error⟩
  cases hc : compile options text
  case ok d' => exact (ok d' hc).symm.trans h
  case error e =>
    have ⟨_, _, _, _, hc⟩ := error e hc
    cases hc.symm.trans h

theorem compile_collapse_group :
    ('"' ∉ "k:1 \t (a\u3000  b".toList ∧ '\n' ∉ "k:1 \t (a\u3000  b".toList) ∧
    compile .default "k:1 \t (a\u3000  b" = .error ⟨14, .closingParen⟩ ∧
    ∃ u r, Query.normalize "k:1 \t (a\u3000  b" = u ++ r ∧ 14 = size u ∧
      compile .default (.ofList (collapse "k:1 \t (a\u3000  b".toList)) =
        .error ⟨size (collapse u), .closingParen⟩ := by
  have h : compile .default "k:1 \t (a\u3000  b" = .error ⟨14, .closingParen⟩ := by decide +kernel
  refine ⟨by decide, h, ?_⟩
  exact (compile_collapse .default _ (by decide) (by decide)).2 _ h

end SearchQuery
