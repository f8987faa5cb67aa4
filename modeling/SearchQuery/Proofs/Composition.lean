import SearchQuery.Proofs.Fields
import SearchQuery.Proofs.Extension
import SearchQuery.Proofs.Rendering

namespace SearchQuery

open Text Cursor

variable {n : Nat} {x : Expected} {b r t u v w : List Char}

namespace Fragment

-- The items of both fragments, side by side.
@[simp]
def append : Fragment → Fragment → Fragment
  | single item, g      => join item .adjacent g
  | join item j rest, g => join item j (rest.append g)

variable {f g : Fragment}

@[simp]
theorem first_append : (f.append g).first = f.first := by
  cases f <;> rfl

@[simp]
theorem isClosed_append : (f.append g).isClosed = g.isClosed := by
  fun_induction f.append g
  case case1 => rfl
  case case2 hi => exact hi

theorem nesting_append : (f.append g).nesting = max f.nesting g.nesting := by
  fun_induction f.append g
  case case1 => rfl
  case case2 hi => simp [hi, Nat.max_assoc]

theorem render_append (t : Target) : (f.append g).render t = f.render t ++ " " ++ g.render t := by
  fun_induction f.append g
  case case1 => rfl
  case case2 hi => simp [render, hi, String.append_assoc]

theorem WellFormed.append (hf : f.WellFormed) (hg : g.WellFormed) (hc : ¬g.first.SpellsConnector) :
    (f.append g).WellFormed := by
  fun_induction f.append g
  case case1 => exact ⟨hf, hc, hg⟩
  case case2 hi => exact ⟨hf.1, by simpa using hf.2.1, hi hf.2.2 hg hc⟩

theorem AvoidsBrackets.append (hf : f.AvoidsBrackets) (hg : g.AvoidsBrackets)
    (hb : ¬g.first.OpensBracket) : (f.append g).AvoidsBrackets := by
  fun_induction f.append g
  case case1 => exact ⟨hb, hg⟩
  case case2 hi => exact ⟨by simpa using hf.1, hi hf.2 hg hb⟩

theorem Spells.append (hf : f.Spells w) (hb : IsBlank b) (hn : b ≠ []) (hg : g.Spells v) :
    (f.append g).Spells (w ++ (b ++ v)) := by
  fun_induction f.append g generalizing w
  case case1 => exact ⟨w, b, v, rfl, hf, ⟨hb, hn⟩, hg⟩
  case case2 hi =>
    have ⟨x, m, y, hw, hx, hm, hy⟩ := hf
    exact ⟨x, m, y ++ (b ++ v), by simp [hw], hx, by simpa using hm, hi hy hg⟩

-- What goes on with another item does so where `g` starts.
theorem Found.append (hf : f.Found n .query u r) (hg : g.Found n .query v t)
    (hc : Connector.at? (v ++ t) = none) (hb : ∀ b : Bracket, ¬b.opens (v ++ t)) :
    (f.append g).Found n .query (u ++ ' ' :: v) t := by
  have ⟨w, b, hu, hw, hbw, _⟩ := hf.spells
  have ⟨x, b', hv, hx, hb', ht⟩ := hg.spells
  have hbw : IsBlank (b ++ [' ']) := isBlank_append.mpr ⟨hbw, isBlank_space⟩
  have ho : ¬g.first.OpensBracket := by
    intro ho
    have ⟨b, h⟩ := hg.opens_iff.mpr ho
    exact hb b h
  have hk : ¬g.first.SpellsConnector := by
    intro hk
    have ⟨y, t', he, _, hy, hend⟩ := hx.first hg.wellFormed ht
    simp only [hv, List.append_assoc, he] at hc
    exact hy.connector hk hend hc
  exact {
    wellFormed := hf.wellFormed.append hg.wellFormed hk
    avoids     := fun h => (hf.avoids h).append (hg.avoids h) ho
    nesting    := nesting_append ▸ Nat.max_le.mpr ⟨hf.nesting, hg.nesting⟩
    spells     := ⟨_, b', by simp [hu, hv], hw.append hbw (by simp) hx, hb', by simpa using ht⟩
    ends       := hg.ends
  }

end Fragment

-- A sequence which goes on behind `f` fails where what follows does.
theorem Fails.append {u} (f : Fragment) (hf : f.Found n .query u [])
    (h : Fails n (.sequence .query) v x r) (hr : Scope.Continues .query (v ++ r))
    (hc : Connector.at? (v ++ r) = none) : Fails n (.sequence .query) (u ++ ' ' :: v) x r := by
  match f with
  | .single i =>
    have ⟨w, b, hu, hi, hb, _⟩ := Fragment.found_single.mp hf
    have hb : IsBlank (b ++ [' ']) := isBlank_append.mpr ⟨hb, isBlank_space⟩
    have hi := hi.congr (t := b ++ [' '] ++ (v ++ r)) fun _ => stops_of_isBlank hb (by simp)
    have h := h.sequenceNext (j := .adjacent) hi ⟨hr, hb, by simp, hc⟩
    simpa [hu] using h
  | .join i j rest =>
    have ⟨w, m, y, hu, hi, hj, hy⟩ := Fragment.found_join.mp hf
    have hs : Stops isWordChar [] → Stops isWordChar (' ' :: (v ++ r)) :=
      fun _ => stops_of_isBlank isBlank_space (by simp)
    have hj := hj.congr hi.ends hy hs
    have ⟨c, z, hz, _⟩ := hy.head
    have hi := hi.congr (t := m ++ (y ++ ' ' :: v ++ r)) fun hs => by
      have := hs.append_right (r := ' ' :: v ++ r) (by simp [hz])
      simpa using this
    have h := (Fails.append rest hy h hr hc).sequenceNext hi (by simpa using hj)
    simpa [hu] using h

-- The parts of two queries, one behind the other. Where texts meet they become one.
inductive Part.Joins : List Part → List Part → List Part → Prop
  | nil {qs : List Part} :
    Joins [] qs qs
  | meet {f g : Fragment} {qs : List Part} :
    Joins [.text f] (.text g :: qs) (.text (f.append g) :: qs)
  | cons {p : Part} {ps qs rs : List Part} :
    Joins ps qs rs → Joins (p :: ps) qs (p :: rs)

theorem PartsFound.blank (h : PartsFound n ps u) (hb : IsBlank b) : PartsFound n ps (b ++ u) := by
  cases h
  case nil hu => exact .nil (isBlank_append.mpr ⟨hb, hu⟩)
  case cons hu hp hr =>
    rw [← List.append_assoc]
    exact .cons (isBlank_append.mpr ⟨hb, hu⟩) hp hr

theorem PartsFails.blank (h : PartsFails n u x r) (hb : IsBlank b) : PartsFails n (b ++ u) x r := by
  cases h
  case first hu hs hn hf =>
    rw [← List.append_assoc]
    exact .first (isBlank_append.mpr ⟨hb, hu⟩) hs hn hf
  case next hu hp hf =>
    rw [← List.append_assoc]
    exact .next (isBlank_append.mpr ⟨hb, hu⟩) hp hf

-- What follows a query which was read up to its end.
structure Follows (cs : List Char) : Prop where
  stops     : Stops isBlank cs
  connector : Connector.at? cs = none

theorem eq_nil_of_stops (hb : IsBlank b) (h : Stops isBlank (b ++ r)) : b = [] := by
  cases b
  case nil => rfl
  case cons c b => simp [hb c] at h

theorem PartsFound.eq_nil (h : PartsFound n ps []) : ps = [] := by
  generalize hu : [] = u at h
  cases h
  case nil => rfl
  case cons hp _ =>
    have ⟨c, t, hc, _⟩ := hp.head
    simp [hc] at hu

-- What follows a text ends it, or starts with a text by itself.
theorem PartsFound.starts_text (h : PartsFound n qs v) (hv : Stops isBlank v)
    (he : ¬Scope.Ends .query v) : ∃ g w t ps, qs = .text g :: ps ∧ v = w ++ t ∧
      g.Found n .query w t ∧ PartsFound n ps t := by
  cases h
  case nil hb =>
    have hn : v = [] := eq_nil_of_stops (r := []) hb (by simpa using hv)
    exact absurd (.inl (by simp [hn])) he
  case cons b p w t ps hb hp hr =>
    have hb := eq_nil_of_stops hb hv
    subst hb
    cases hp
    case facets h => exact absurd (.inr ⟨rfl, _, h.opens⟩) he
    case nested h => exact absurd (.inr ⟨rfl, _, h.opens⟩) he
    case text g _ hg => exact ⟨g, w, t, ps, rfl, rfl, hg, hr⟩

theorem PartsFound.join (hp : PartsFound n ps u) (hq : PartsFound n qs v) (hv : Follows v) :
    ∃ rs, Part.Joins ps qs rs ∧ PartsFound n rs (u ++ ' ' :: v) := by
  induction hp
  case nil b hb =>
    have hb : IsBlank (b ++ [' ']) := isBlank_append.mpr ⟨hb, isBlank_space⟩
    exact ⟨qs, .nil, by simpa using hq.blank hb⟩
  case cons b p u w ps hb hp hr hi =>
    have ⟨rs, hj, hrs⟩ := hi
    by_cases hw : w = []
    case neg =>
      have h := PartsFound.cons hb (hp.extend hw) hrs
      exact ⟨p :: rs, hj.cons, by simpa using h⟩
    case pos =>
      cases hp
      case facets h =>
        have h := PartsFound.cons hb (.facets (h.extend .extend)) hrs
        exact ⟨_ :: rs, hj.cons, by simpa using h⟩
      case nested h =>
        have h := PartsFound.cons hb (.nested (h.extend fun h _ => h.extend)) hrs
        exact ⟨_ :: rs, hj.cons, by simpa using h⟩
      case text f ho hf =>
        subst hw
        have hps := hr.eq_nil
        subst hps
        by_cases he : Scope.Ends .query v
        case pos =>
          have hf := hf.blank he isBlank_space (by simp)
          have h := PartsFound.cons hb (.text ho hf) hq
          exact ⟨.text f :: qs, .cons .nil, by simpa using h⟩
        case neg =>
          have ⟨g, w, t, ps, hqs, hv', hg, hr⟩ := hq.starts_text hv.stops he
          subst hqs hv'
          have hf := hf.append hg hv.connector fun b hb => he (.inr ⟨rfl, b, hb⟩)
          have h := PartsFound.cons hb (.text (by simpa using ho) hf) hr
          exact ⟨.text (f.append g) :: ps, .meet, by simpa using h⟩

theorem PartsFails.starts_text (h : PartsFails n v x r) (hv : Stops isBlank (v ++ r))
    (he : ¬Scope.Ends .query (v ++ r)) : Fails n (.sequence .query) v x r ∨
      ∃ g w t, v = w ++ t ∧ Fragment.Found n .query g w (t ++ r) ∧ PartsFails n t x r := by
  cases h
  case first b u hb hs hn hf =>
    have hb := eq_nil_of_stops hb (by simpa using hv)
    subst hb
    cases hf
    case facets h => exact absurd (.inr ⟨rfl, _, h.opens⟩) he
    case nested h => exact absurd (.inr ⟨rfl, _, h.opens⟩) he
    case parenthesis => exact absurd (.inl (by simp)) he
    case text h => exact .inl h
  case next b p w t hb hp hr =>
    have hb := eq_nil_of_stops hb (by simpa using hv)
    subst hb
    cases hp
    case facets h => exact absurd (.inr ⟨rfl, _, by simpa using h.opens⟩) he
    case nested h => exact absurd (.inr ⟨rfl, _, by simpa using h.opens⟩) he
    case text g _ hg => exact .inr ⟨g, w, t, rfl, hg, hr⟩

theorem PartsFails.join (hp : PartsFound n ps u) (hq : PartsFails n v x r) (hv : Follows (v ++ r)) :
    PartsFails n (u ++ ' ' :: v) x r := by
  induction hp
  case nil b hb =>
    have hb : IsBlank (b ++ [' ']) := isBlank_append.mpr ⟨hb, isBlank_space⟩
    simpa using hq.blank hb
  case cons b p u w ps hb hp hr hi =>
    by_cases hw : w = []
    case neg =>
      have h := PartsFails.next hb (by simpa using hp.extend (t := ' ' :: v ++ r) hw) hi
      simpa using h
    case pos =>
      cases hp
      case facets h =>
        have h := h.extend (t := ' ' :: v ++ r) .extend
        have h := PartsFails.next hb (.facets (by simpa using h)) hi
        simpa using h
      case nested h =>
        have h := h.extend (t := ' ' :: v ++ r) fun h _ => h.extend
        have h := PartsFails.next hb (.nested (by simpa using h)) hi
        simpa using h
      case text f ho hf =>
        subst hw
        by_cases he : Scope.Ends .query (v ++ r)
        case pos =>
          have hf := hf.blank he isBlank_space (by simp)
          have h := PartsFails.next hb (.text ho hf) hq
          simpa using h
        case neg =>
          cases hq.starts_text hv.stops he
          case inl h =>
            have hf' := h.append f hf ⟨hv.stops, he⟩ hv.connector
            have ⟨c, t, hu, hc, hp⟩ := hf.head
            have ho : ∀ b : Bracket, ¬b.opens (u ++ ' ' :: v ++ r) := by
              intro b hb
              have ⟨w, d, hu, hw, hd, _⟩ := hf.spells
              have hd : IsBlank (d ++ [' ']) := isBlank_append.mpr ⟨hd, isBlank_space⟩
              have hs : Stops isWordChar (d ++ [' '] ++ (v ++ r)) := stops_of_isBlank hd (by simp)
              exact ho <| hw.opens_iff hf.wellFormed (.inr hs) |>.mp ⟨b, by simpa [hu] using hb⟩
            have hf' := Part.Fails.text ho (by simp [hu, hp]) hf'
            have h := PartsFails.first hb (by simp [hu, hc]) (by simp) hf'
            simpa using h
          case inr h =>
            have ⟨g, w, t, hv', hg, hr⟩ := h
            subst hv'
            simp only [List.append_assoc] at hv he
            have hf := hf.append hg hv.connector fun b hb => he (.inr ⟨rfl, b, hb⟩)
            have h := PartsFails.next hb (.text (by simpa using ho) hf) hr
            simpa using h

theorem Drops.join (h : Drops u v) (hw : Follows w) : Drops u (v ++ ' ' :: w) := by
  have hs : Stops isWordChar (' ' :: w) := stops_of_isBlank isBlank_space (by simp)
  cases h
  case inl h =>
    have ⟨b, k, hu, hb, hk, hv⟩ := h
    refine .inl ⟨b, k, hu, hb, hk, ?_⟩
    cases v
    case nil => exact hs
    case cons => exact hv
  case inr h =>
    have ⟨hu, hv⟩ := h
    refine .inr ⟨hu, ?_⟩
    intro b t k he hb ht hk
    have ⟨c, y, hc, hcb, hy⟩ := exists_span isBlank v
    by_cases hn : y = []
    case pos =>
      have hcb : IsBlank (c ++ [' ']) := isBlank_append.mpr ⟨hcb, isBlank_space⟩
      have ht' : t = w := by
        rw [← dropWhile_append hb ht, ← he, hc, hn]
        simpa using dropWhile_append hcb hw.stops
      rw [ht', hw.connector] at hk
      cases hk
    case neg =>
      have ht' : t = y ++ ' ' :: w := by
        rw [← dropWhile_append hb ht, ← he, hc, List.append_assoc]
        exact dropWhile_append hcb (hy.append_right hn)
      exact hv c y k hc hcb hy (Connector.at?_of_append hs (ht' ▸ hk))

theorem TypeFound.join (h : TypeFound d u v) (hw : Follows w) : TypeFound d u (v ++ ' ' :: w) := by
  cases h
  case none ho =>
    refine .none fun h => ?_
    cases Parser.opensTypeClause_of_append h
    case inl h => exact ho h
    case inr h =>
      have ⟨c, a, hk, hc⟩ := h
      have hc : c = ' ' := by simpa using hc.symm
      have hm : ' ' ∈ Parser.typeKeyword := by simp [hk, hc]
      simp [Parser.typeKeyword] at hm
  case some y e hy hn hb hd =>
    refine .some hy hn ?_ (hd.join hw)
    have hb' : e ++ (v ++ ' ' :: w) = e ++ v ++ ' ' :: w := by simp
    rw [hb']
    cases h : e ++ v
    case nil => simpa using isBlank_space ' ' (by simp)
    case cons => simpa [h] using hb

theorem TypeFound.eq_none (h : TypeFound d u v) (hn : ¬Parser.opensTypeClause (u ++ v)) :
    d = .none ∧ u = [] := by
  cases h
  case none => exact ⟨rfl, rfl⟩
  case some hn' hw _ _ =>
    exact absurd (by simpa using Parser.opensTypeClause_word hn' hw) hn

theorem TypeFails.opens (h : TypeFails u x r) : Parser.opensTypeClause (u ++ r) := by
  cases h
  case missing h _ => exact h
  case malformed hn hw _ _ => simpa using Parser.opensTypeClause_word hn hw

theorem Query.Found.join {p q : Query} (hp : p.Found n u) (hq : q.Found n v) (hv : Follows v)
    (ht : ¬Parser.opensTypeClause v) : ∃ r : Query, r.Found n (u ++ ' ' :: v) ∧
      r.docType = p.docType ∧ q.docType = none ∧ Part.Joins p.parts q.parts r.parts := by
  have ⟨y, w, hu, hy, hw⟩ := hp
  have ⟨z, w', hv', hz, hw'⟩ := hq
  have ⟨hd, hz⟩ := hz.eq_none (hv' ▸ ht)
  have hv' : v = w' := by simpa [hz] using hv'
  subst hv'
  have ⟨rs, hj, hrs⟩ := hw.join hw' hv
  exact ⟨⟨p.docType, rs⟩, ⟨y, w ++ ' ' :: v, by simp [hu], hy.join hv, hrs⟩, rfl, hd, hj⟩

theorem Query.Fails.join {p : Query} (hp : p.Found n u) (hq : Query.Fails n v x r)
    (hv : Follows (v ++ r)) (ht : ¬Parser.opensTypeClause (v ++ r)) :
    Query.Fails n (u ++ ' ' :: v) x r := by
  have ⟨y, w, hu, hy, hw⟩ := hp
  cases hq
  case type h => exact absurd h.opens ht
  case parts d z t hz hf =>
    have ⟨_, hz⟩ := hz.eq_none (by simpa using ht)
    subst hz
    have h := Query.Fails.parts (by simpa using hy.join hv) (hf.join hw hv)
    simpa [hu] using h

-- The queries of both texts, with a blank between them.
def QueryString.append (s t : QueryString) : QueryString :=
  .ofText (s.query ++ " " ++ t.query)

-- The conditions of both documents. Of the facets those of `e` count where both have one.
def Document.merge (d e : Document) : Document where
  must    := d.must ++ e.must
  should  := d.should ++ e.should
  mustNot := d.mustNot ++ e.mustNot
  text    := .merge .append d.text e.text
  facets  := .merge .union d.facets e.facets

namespace Part

variable {ps qs rs : List Part}

theorem Joins.nestedSpecs (h : Joins ps qs rs) : rs.flatMap nestedSpecs =
    ps.flatMap nestedSpecs ++ qs.flatMap nestedSpecs := by
  induction h
  case nil => simp
  case meet => simp [Part.nestedSpecs]
  case cons hi => simp [hi]

theorem Joins.facetSpecs? (h : Joins ps qs rs) : rs.filterMap facetSpecs? =
    ps.filterMap facetSpecs? ++ qs.filterMap facetSpecs? := by
  induction h
  case nil => simp
  case meet => simp [List.filterMap_cons, Part.facetSpecs?]
  case cons p _ _ _ _ hi => cases p <;> simp [List.filterMap_cons, Part.facetSpecs?, hi]

def texts (ps : List Part) : List String :=
  (ps.filterMap fragment?).map (Fragment.render .query)

theorem intercalate_meet (a b : String) (l m : List String) :
    " ".intercalate (l ++ (a ++ " " ++ b) :: m) = " ".intercalate (l ++ a :: b :: m) := by
  have h : " ".intercalate ((a ++ " " ++ b) :: m) = " ".intercalate (a :: b :: m) := by
    rw [String.intercalate_cons_append, String.intercalate_cons_cons]
  by_cases hl : l = []
  case pos => simp [hl, h]
  case neg => rw [String.intercalate_append_of_ne_nil hl (by simp), h,
    String.intercalate_append_of_ne_nil hl (by simp)]

-- The texts in front do not matter for how those of two queries are joined.
theorem Joins.texts (h : Joins ps qs rs) (l : List String) :
    " ".intercalate (l ++ texts rs) = " ".intercalate (l ++ (texts ps ++ texts qs)) := by
  induction h generalizing l
  case nil => rfl
  case meet f g qs =>
    have := intercalate_meet (f.render .query) (g.render .query) l (Part.texts qs)
    simpa [Part.texts, fragment?, Fragment.render_append] using this
  case cons p _ _ _ _ hi =>
    cases p
    case text f =>
      have := hi (l ++ [f.render .query])
      simpa [Part.texts, List.filterMap_cons, fragment?] using this
    all_goals exact hi l

end Part

-- Nothing that was read is rendered as nothing, so texts can be told apart from their absence.
theorem Item.render_ne {i : Item} (h : i.WellFormed) (t : Target) : i.render t ≠ "" := by
  cases i
  case compare key op value =>
    have hk : key ≠ "" := by simpa using h.1.ne_nil
    simp [render, hk]
  case free a =>
    cases a
    case word text =>
      have hw : (t.freeWord text).toList ≠ [] := by
        cases t
        case query => simpa [Target.freeWord] using Escaping.encode_ne_nil h.ne_nil
        case filter => exact h.ne_nil
      simpa [render] using hw
    case phrase literal text =>
      obtain ⟨v, hv⟩ := (t.isPhrase_phrase h).head
      have hp : (t.phrase literal text).toList ≠ [] := by simp [hv]
      simpa [render] using hp
  case group => simp [render]

theorem Fragment.render_ne {f : Fragment} (h : f.WellFormed) (t : Target) : f.render t ≠ "" := by
  cases f
  case single => exact Item.render_ne h t
  case join =>
    have := Item.render_ne h.1 t
    simp [render, this]

theorem PartsFound.texts_ne (h : PartsFound n ps u) : ∀ s ∈ Part.texts ps, s ≠ "" := by
  induction h
  case nil => simp [Part.texts]
  case cons hp _ hi =>
    cases hp
    case text f _ hf =>
      intro s hs
      cases List.mem_cons.mp hs
      case inl hs => exact hs ▸ f.render_ne hf.wellFormed .query
      case inr hs => exact hi s hs
    all_goals exact hi

theorem intercalate_eq_empty_iff {l : List String} (h : ∀ s ∈ l, s ≠ "") :
    " ".intercalate l = "" ↔ l = [] := by
  cases l
  case nil => simp
  case cons s l => cases l <;> simp_all

theorem Query.text_eq (q : Query) : q.text = " ".intercalate (Part.texts q.parts) :=
  rfl

theorem Query.document_join {p q r : Query} (hp : p.Found n u) (hq : q.Found n v)
    (ht : r.docType = p.docType) (hn : q.docType = none)
    (hj : Part.Joins p.parts q.parts r.parts) : r.document = p.document.merge q.document := by
  have must : r.must = p.must ++ q.must := by
    simp [Query.must, nestedSpecs, hj.nestedSpecs, ht, hn]
  have text : r.document.text = .merge .append p.document.text q.document.text := by
    have ⟨_, _, _, _, hp⟩ := hp
    have ⟨_, _, _, _, hq⟩ := hq
    have hp := intercalate_eq_empty_iff hp.texts_ne
    have hq := intercalate_eq_empty_iff hq.texts_ne
    have hr : r.text = " ".intercalate (Part.texts p.parts ++ Part.texts q.parts) := by
      simpa [text_eq] using hj.texts []
    simp only [document, hr, text_eq, String.isEmpty_iff, hp, hq]
    by_cases hA : Part.texts p.parts = []
    case pos => simp [hA, hq]
    case neg =>
      by_cases hB : Part.texts q.parts = []
      case pos => simp [hA, hB, hp]
      case neg =>
        have hr := String.intercalate_append_of_ne_nil (s := " ") hA hB
        simp [hA, hB, hr, QueryString.append, QueryString.ofText]
  have facets : r.facets = .merge .union p.facets q.facets := by
    have hr : r.facetClauses = p.facetClauses ++ q.facetClauses := hj.facetSpecs?
    simp only [Query.facets, hr, List.isEmpty_iff, List.append_eq_nil_iff]
    by_cases hA : p.facetClauses = []
    case pos => by_cases hB : q.facetClauses = [] <;> simp [hA, hB]
    case neg =>
      by_cases hB : q.facetClauses = []
      case pos => simp [hA, hB]
      case neg => simp [hA, hB, Fields.ofList_append]
  simp only [document, Document.merge] at text ⊢
  rw [must, text, facets]
  rfl

-- A query can be written behind one that compiles, as if it stood alone: the document is the merge
-- of both, and an error is the same one, behind the first query and the blank. Only a type clause
-- and a connector have another meaning there.
theorem compile_append (options : CompilerOptions) (p q : String) (dp : Document)
    (hp : Query.IsPlain p) (hq : Query.IsPlain q) (np : p ≠ "") (nq : q ≠ "")
    (hc : compile options p = .ok dp) (ht : ¬Parser.opensTypeClause q.toList)
    (hk : Connector.at? q.toList = none) :
    (∀ dq, compile options q = .ok dq → compile options (p ++ " " ++ q) = .ok (dp.merge dq)) ∧
    ∀ e, compile options q = .error e → compile options (p ++ " " ++ q) =
      .error ⟨p.utf8ByteSize + 1 + e.offset, e.expected⟩ := by
  have ⟨hqs, hqe⟩ := trim_eq_self_iff.mp hq.trim
  have ⟨hps, _⟩ := trim_eq_self_iff.mp hp.trim
  have hplain : Query.IsPlain (p ++ " " ++ q) := by
    refine ⟨by simp [hp.lines, hq.lines], trim_eq_self_iff.mpr ⟨?_, ?_⟩⟩
    · simpa using hps.append_right (r := ' ' :: q.toList) (by simpa using np)
    · simpa using hqe.append_right (r := ' ' :: p.toList.reverse) (by simpa using nq)
  have hpq : Query.normalize (p ++ " " ++ q) = p.toList ++ ' ' :: q.toList := by
    simp [hplain.normalize]
  have ⟨P, hP, hdp⟩ := compile_eq_ok_iff.mp hc
  rw [hp.normalize] at hP
  subst hdp
  constructor
  case left =>
    intro dq hdq
    have ⟨Q, hQ, hdq⟩ := compile_eq_ok_iff.mp hdq
    rw [hq.normalize] at hQ
    have ⟨R, hR, hd, hn, hj⟩ := hP.join hQ ⟨hqs, hk⟩ ht
    have h := Query.document_join hP hQ hd hn hj
    exact compile_eq_ok_iff.mpr ⟨R, hpq ▸ hR, hdq ▸ h⟩
  case right =>
    intro e he
    have ⟨u, x, r, hu, hf, he⟩ := compile_eq_error_iff.mp he
    rw [hq.normalize] at hu
    have h := hf.join hP (hu ▸ ⟨hqs, hk⟩) (hu ▸ ht)
    refine compile_eq_error_iff.mpr ⟨_, x, r, ?_, h, ?_⟩
    · simp [hpq, hu]
    · have hs : ' '.utf8Size = 1 := rfl
      simp [he, size_toList, hs, Nat.add_assoc]

theorem compile_append_nested :
    compile .default ("nested:[a (b)] x" ++ " " ++ "y") = .ok { Document.empty with
      must := [.nested "a" (.ofText "b")]
      text := some (.ofText "x y") } ∧
    compile .default ("nested:[a (b)] x" ++ " " ++ "k:") = .error ⟨19, .value⟩ := by
  have hp : Query.IsPlain "nested:[a (b)] x" := by decide +kernel
  have hc : compile .default "nested:[a (b)] x" = .ok { Document.empty with
      must := [.nested "a" (.ofText "b")]
      text := some (.ofText "x") } := by
    decide +kernel
  constructor
  case left =>
    have hq : compile .default "y" = .ok { Document.empty with text := some (.ofText "y") } := by
      decide +kernel
    exact (compile_append _ _ _ _ hp (by decide +kernel) (by decide) (by decide) hc (by decide)
      (by decide)).1 _ hq
  case right =>
    have hq : compile .default "k:" = .error ⟨2, .value⟩ := by decide +kernel
    exact (compile_append _ _ _ _ hp (by decide +kernel) (by decide) (by decide) hc (by decide)
      (by decide)).2 _ hq

end SearchQuery
