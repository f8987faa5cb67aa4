import SearchQuery.Proofs.Nesting
import SearchQuery.Proofs.Parts

namespace SearchQuery

open Text Cursor

-- An entry opens groups in its filter.
inductive FilterOpens (d : Nat) : List Char → List Char → Prop
  | intro :
    IsName w → IsBlank b → Opens d .group u r → FilterOpens d (w ++ (b ++ u)) r

section

variable {α : Type} (Found : Nat → α → List Char → List Char → Prop)

inductive EntriesOpens (Opens : List Char → List Char → Prop) : List Char → List Char → Prop
  | first :
    Opens u r → EntriesOpens Opens u r
  | next :
    Found n a u (s ++ (v ++ r)) → Separates s (v ++ r) → (v ++ r).head? ≠ some ']' →
    EntriesOpens Opens v r → EntriesOpens Opens (u ++ (s ++ v)) r

inductive ClauseOpens (Opens : Nat → List Char → List Char → Prop) (b : Bracket) :
    Nat → List Char → List Char → Prop
  | here :
    IsBlank b₁ → ClauseOpens Opens b 0 (b.keyword ++ b₁) ('[' :: r)
  | inside :
    IsBlank b₁ → IsBlank b₂ → Stops isBlank (u ++ r) → EntriesOpens Found (Opens d) u r →
    ClauseOpens Opens b (d + 1) (b.keyword ++ (b₁ ++ '[' :: (b₂ ++ u))) r

end

inductive Part.Opens (d : Nat) : List Char → List Char → Prop
  | facets :
    ClauseOpens FacetSpec.Found FilterOpens .facets d u r → Part.Opens d u r
  | nested :
    ClauseOpens NestedSpec.Found FilterOpens .nested d u r → Part.Opens d u r
  | text :
    (∀ b : Bracket, ¬b.opens (u ++ r)) → (u ++ r).head? ≠ some ')' →
    SearchQuery.Opens d (.sequence .query) u r → Part.Opens d u r

inductive PartsOpens (d : Nat) : List Char → List Char → Prop
  | first :
    IsBlank b → Stops isBlank (u ++ r) → Part.Opens d u r → PartsOpens d (b ++ u) r
  | next :
    IsBlank b → Part.Found n p u (v ++ r) → PartsOpens d v r → PartsOpens d (b ++ (u ++ v)) r

-- When the text `u ++ r` is read as a query, the group or the clause at `r` is opened while `d`
-- others are open.
inductive Query.Opens (d : Nat) : List Char → List Char → Prop
  | intro :
    TypeFound v u (w ++ r) → PartsOpens d w r → Query.Opens d (u ++ w) r

-- What the number of levels changes: a level may be missing, and if one is then something is opened
-- too deep there. Whatever else is read or refused stays as it is.
structure Limited {α : Type} (Found : Nat → α → List Char → List Char → Prop)
    (Fails : Nat → List Char → Expected → List Char → Prop)
    (Opens : Nat → List Char → List Char → Prop) : Prop where
  found_mono : ∀ {n m a u r}, Found n a u r → n ≤ m → Found m a u r
  fails_mono : ∀ {n m u x r}, Fails n u x r → x ≠ .shallowerNesting → n ≤ m → Fails m u x r
  limit      : ∀ {n m a u r}, Found m a u r → Found n a u r ∨ Refused (Fails n) u r
  of_fails   : ∀ {n u r}, Fails n u .shallowerNesting r → Opens n u r
  refused    : ∀ {d n u r}, Opens d u r → n ≤ d → Refused (Fails n) u r
  counted    : ∀ {d u r}, Opens d u r → d ≤ u.countP isOpening ∧ ∃ c t, r = c :: t ∧ isOpening c

theorem FilterOpens.counted (h : FilterOpens d u r) :
    d ≤ u.countP isOpening ∧ ∃ c t, r = c :: t ∧ isOpening c := by
  cases h
  case intro hw hb h =>
    have ⟨hd, t, ht⟩ := h.counted
    exact ⟨by simp; omega, _, t, ht, rfl⟩

namespace Refused

theorem facet (h : Refused (Fails n .group) u r) (hw : IsName w) (hb : IsBlank b)
    (hp : (u ++ r).head? = some '(') : Refused (FacetSpec.Fails n) (w ++ (b ++ u)) r :=
  h.behind₂ fun he hf => .filter hw hb (he ▸ hp) hf

theorem nested (h : Refused (Fails n .group) u r) (hw : IsName w) (hb : IsBlank b)
    (hp : (u ++ r).head? = some '(') : Refused (NestedSpec.Fails n) (w ++ (b ++ u)) r := by
  apply h.behind₂
  intro v t he hf
  rw [← he] at hp
  exact .filter hw hb (stops_of_open hp) (stops_name hb (stops_name_of_open hp)) hf

end Refused

theorem limited_facet : Limited FacetSpec.Found FacetSpec.Fails FilterOpens where
  found_mono h hn := by
    cases h
    case bare hb hr hs hp hw => exact .bare hw hb hr hs hp
    case filtered hw hb hf => exact .filtered hw hb (hf.mono hn)
  fails_mono h hx hn := by
    cases h
    case name hw hd hs => exact .name hw hd hs
    case filter hw hb hp hf => exact .filter hw hb hp (hf.mono hx hn)
  limit h := by
    cases h
    case bare hb hr hs hp hw => exact .inl <| .bare hw hb hr hs hp
    case filtered hw hb hf =>
      cases hf.limit fun h => Fragment.Found.limit _ h
      case inl hf' => exact .inl <| .filtered hw hb hf'
      case inr hr => exact .inr <| hr.facet hw hb (Parser.grouped_head hf)
  of_fails h := by
    cases h
    case filter hw hb _ hf => exact .intro hw hb (.of_fails hf rfl)
  refused h hn := by
    cases h
    case intro hw hb h => exact (h.refused hn).facet hw hb h.starts
  counted := FilterOpens.counted

theorem limited_nested : Limited NestedSpec.Found NestedSpec.Fails FilterOpens where
  found_mono h hn := by
    cases h
    case intro hw hb hf => exact .intro hw hb (hf.mono hn)
  fails_mono h hx hn := by
    cases h
    case name hw hd hs => exact .name hw hd hs
    case filter hw hb hs hs' hf => exact .filter hw hb hs hs' (hf.mono hx hn)
  limit h := by
    cases h
    case intro hw hb hf =>
      cases hf.limit fun h => Fragment.Found.limit _ h
      case inl hf' => exact .inl <| .intro hw hb hf'
      case inr hr => exact .inr <| hr.nested hw hb (Parser.grouped_head hf)
  of_fails h := by
    cases h
    case filter hw hb _ _ hf => exact .intro hw hb (.of_fails hf rfl)
  refused h hn := by
    cases h
    case intro hw hb h => exact (h.refused hn).nested hw hb h.starts
  counted := FilterOpens.counted

section

variable {α : Type} {Found : Nat → α → List Char → List Char → Prop}
variable {Fails : Nat → List Char → Expected → List Char → Prop}
variable {Opens : Nat → List Char → List Char → Prop}

-- Where a level is missing there is a bracket, so the text does not end before the entry.
theorem Limited.refused_first (hl : Limited Found Fails Opens) (h : Refused (Fails n) u r) :
    Refused (EntriesFails (Found n) (Fails n)) u r := by
  have ⟨v, t, hu, hf⟩ := h
  have ⟨_, c, w, ht, _⟩ := hl.counted (hl.of_fails hf)
  exact ⟨v, t, hu, .first (by simp [ht]) hf⟩

theorem Refused.next (h : Refused (EntriesFails (Found n) (Fails n)) v r)
    (ha : Found n a u (s ++ (v ++ r))) (hs : Separates s (v ++ r))
    (hc : (v ++ r).head? ≠ some ']') :
    Refused (EntriesFails (Found n) (Fails n)) (u ++ (s ++ v)) r :=
  h.behind₂ fun he hf => .next (he ▸ ha) (he ▸ hs) (he ▸ hc) hf

theorem Limited.entries (hl : Limited Found Fails Opens) :
    Limited (fun n => EntriesFound (Found n)) (fun n => EntriesFails (Found n) (Fails n))
      (fun d => EntriesOpens Found (Opens d)) where
  found_mono h hn := by
    induction h
    case last ha hs => exact .last (hl.found_mono ha hn) hs
    case cons ha hs hc _ hi => exact .cons (hl.found_mono ha hn) hs hc hi
  fails_mono h hx hn := by
    induction h
    case unclosed => exact .unclosed
    case first h he => exact .first h (hl.fails_mono he hx hn)
    case next ha hs hc _ hi => exact .next (hl.found_mono ha hn) hs hc (hi hx)
  limit {n m as u r} h := by
    induction h
    case last ha hs =>
      cases hl.limit ha (n := n)
      case inl ha => exact .inl <| .last ha hs
      case inr hr => exact .inr <| (hl.refused_first hr).append₂
    case cons ha hs hc _ hi =>
      cases hl.limit ha (n := n)
      case inl ha =>
        cases hi
        case inl hi => exact .inl <| .cons ha hs hc hi
        case inr hi => exact .inr <| hi.next ha hs hc
      case inr hr => exact .inr <| (hl.refused_first hr).append₂
  of_fails h := by
    generalize hx : Expected.shallowerNesting = x at h
    induction h
    case unclosed => cases hx
    case first h => exact .first (hl.of_fails (hx ▸ h))
    case next ha hs hc _ hi => exact .next ha hs hc (hi hx)
  refused {d n u r} h hn := by
    induction h
    case first h => exact hl.refused_first (hl.refused h hn)
    case next ha hs hc _ hi =>
      cases hl.limit ha (n := n)
      case inl ha => exact hi.next ha hs hc
      case inr hr => exact (hl.refused_first hr).append₂
  counted h := by
    induction h
    case first h => exact hl.counted h
    case next hi => exact ⟨by simp; omega, hi.2⟩

theorem Refused.clause {b : Bracket} (h : Refused (EntriesFails (Found n) (Fails n)) u r)
    (hb₁ : IsBlank b₁) (hb₂ : IsBlank b₂) (hs : Stops isBlank (u ++ r)) :
    Refused (ClauseFails Found Fails b (n + 1)) (b.keyword ++ (b₁ ++ '[' :: (b₂ ++ u))) r := by
  have hw : b.keyword ++ (b₁ ++ '[' :: (b₂ ++ u)) = b.keyword ++ (b₁ ++ '[' :: b₂) ++ u := by simp
  rw [hw]
  apply h.behind
  intro v t he hf
  have := ClauseFails.inside (b := b) hb₁ hb₂ (he ▸ hs) hf
  simpa using this

theorem Refused.deep_clause {b : Bracket} (hb : IsBlank b₁) :
    Refused (ClauseFails Found Fails b 0) (b.keyword ++ (b₁ ++ '[' :: u)) r :=
  ⟨b.keyword ++ b₁, '[' :: u, by simp, .deep hb⟩

theorem Limited.clause (hl : Limited Found Fails Opens) (b : Bracket) :
    Limited (ClauseFound Found b) (ClauseFails Found Fails b) (ClauseOpens Found Opens b) where
  found_mono {n m as u r} h hn := by
    cases h
    case intro hb₁ hb₂ hs ha =>
      cases m
      case zero => omega
      case succ m => exact .intro hb₁ hb₂ hs (hl.entries.found_mono ha (by omega))
  fails_mono {n m u x r} h hx hn := by
    cases h
    case deep => contradiction
    case inside hb₁ hb₂ hs ha =>
      cases m
      case zero => omega
      case succ m => exact .inside hb₁ hb₂ hs (hl.entries.fails_mono ha hx (by omega))
  limit {n m as u r} h := by
    cases h
    case intro hb₁ hb₂ hs ha =>
      cases n
      case zero => exact .inr <| .deep_clause hb₁
      case succ n =>
        cases hl.entries.limit ha (n := n)
        case inl ha => exact .inl <| .intro hb₁ hb₂ hs ha
        case inr hr => exact .inr <| hr.clause hb₁ hb₂ hs
  of_fails h := by
    cases h
    case deep hb => exact .here hb
    case inside hb₁ hb₂ hs h => exact .inside hb₁ hb₂ hs (hl.entries.of_fails h)
  refused {d n u r} h hn := by
    cases h
    case here hb =>
      cases Nat.le_zero.mp hn
      exact .of_fails (.deep hb)
    case inside hb₁ hb₂ hs h =>
      cases n
      case zero => exact .deep_clause hb₁
      case succ n => exact (hl.entries.refused h (by omega)).clause hb₁ hb₂ hs
  counted h := by
    cases h
    case here => exact ⟨Nat.zero_le _, _, _, rfl, rfl⟩
    case inside h =>
      have ⟨hd, hr⟩ := hl.entries.counted h
      exact ⟨by simp [isOpening]; omega, hr⟩

end

theorem limited_part : Limited Part.Found Part.Fails Part.Opens where
  found_mono h hn := by
    cases h
    case facets h => exact .facets ((limited_facet.clause _).found_mono h hn)
    case nested h => exact .nested ((limited_nested.clause _).found_mono h hn)
    case text ho hf => exact .text ho (hf.mono hn)
  fails_mono h hx hn := by
    cases h
    case facets h => exact .facets ((limited_facet.clause _).fails_mono h hx hn)
    case nested h => exact .nested ((limited_nested.clause _).fails_mono h hx hn)
    case parenthesis => exact .parenthesis
    case text hb hp hf => exact .text hb hp (hf.mono hx hn)
  limit {n m p u r} h := by
    cases h
    case facets h =>
      cases (limited_facet.clause _).limit h (n := n)
      case inl h => exact .inl <| .facets h
      case inr h => exact .inr <| h.imp fun _ hf => .facets hf
    case nested h =>
      cases (limited_nested.clause _).limit h (n := n)
      case inl h => exact .inl <| .nested h
      case inr h => exact .inr <| h.imp fun _ hf => .nested hf
    case text f ho hf =>
      -- What is found here tells that the text opens no clause, so what fails here is text as well.
      have hb : ∀ b : Bracket, ¬b.opens (u ++ r) := fun b hb => ho (hf.opens_iff.mp ⟨b, hb⟩)
      have ⟨c, t, hu, _, hp⟩ := hf.head
      have hp : (u ++ r).head? ≠ some ')' := by simp [hu, hp]
      cases Fragment.Found.limit f hf (n := n)
      case inl hf => exact .inl <| .text ho hf
      case inr hr => exact .inr <| hr.imp fun he hf => .text (he ▸ hb) (he ▸ hp) hf
  of_fails h := by
    cases h
    case facets h => exact .facets ((limited_facet.clause _).of_fails h)
    case nested h => exact .nested ((limited_nested.clause _).of_fails h)
    case text hb hp hf => exact .text hb hp (.of_fails hf rfl)
  refused h hn := by
    cases h
    case facets h => exact ((limited_facet.clause _).refused h hn).imp fun _ hf => .facets hf
    case nested h => exact ((limited_nested.clause _).refused h hn).imp fun _ hf => .nested hf
    case text hb hp h =>
      exact (h.refused hn).imp fun he hf => .text (he ▸ hb) (he ▸ hp) hf
  counted h := by
    cases h
    case facets h => exact (limited_facet.clause _).counted h
    case nested h => exact (limited_nested.clause _).counted h
    case text h =>
      have ⟨hd, t, ht⟩ := h.counted
      exact ⟨hd, _, t, ht, rfl⟩

theorem Refused.part (h : Refused (Part.Fails n) u r) (hb : IsBlank b)
    (hs : Stops isBlank (u ++ r)) :
    Refused (PartsFails n) (b ++ u) r := by
  have ⟨v, t, hu, hf⟩ := h
  have ⟨_, c, w, ht, _⟩ := limited_part.counted (limited_part.of_fails hf)
  refine ⟨b ++ v, t, by simp [hu], .first hb ?_ (by simp [ht]) hf⟩
  simpa [hu] using hs

theorem Refused.part_append (h : Refused (Part.Fails n) u (v ++ r)) (hb : IsBlank b)
    (hp : Part.Found m p u (v ++ r)) : Refused (PartsFails n) (b ++ (u ++ v)) r := by
  have ⟨c, t, hu, hc⟩ := hp.head
  rw [← List.append_assoc]
  exact (h.part hb (by simp [hu, hc])).append

theorem Refused.parts (h : Refused (PartsFails n) v r) (hb : IsBlank b)
    (hp : Part.Found n p u (v ++ r)) : Refused (PartsFails n) (b ++ (u ++ v)) r :=
  h.behind₂ fun he hf => .next hb (he ▸ hp) hf

theorem PartsFound.mono (h : PartsFound n ps u) (hn : n ≤ m) : PartsFound m ps u := by
  induction h
  case nil hb => exact .nil hb
  case cons hb hp _ hi => exact .cons hb (limited_part.found_mono hp hn) hi

theorem PartsFound.limit (h : PartsFound m ps u) :
    PartsFound n ps u ∨ Refused (PartsFails n) u [] := by
  induction h
  case nil hb => exact .inl <| .nil hb
  case cons u v _ hb hp _ hi =>
    rw [← List.append_nil v] at hp
    cases limited_part.limit hp (n := n)
    case inr hr => exact .inr <| hr.part_append hb hp
    case inl hp' =>
      cases hi
      case inl hi => exact .inl <| .cons hb (by simpa using hp') hi
      case inr hi => exact .inr <| hi.parts hb hp'

theorem limited_parts :
    Limited (fun n ps u r => PartsFound n ps u ∧ r = []) PartsFails PartsOpens where
  found_mono h hn := ⟨h.1.mono hn, h.2⟩
  fails_mono h hx hn := by
    induction h
    case first hb hs hr h => exact .first hb hs hr (limited_part.fails_mono h hx hn)
    case next hb hp _ hi => exact .next hb (limited_part.found_mono hp hn) (hi hx)
  limit h := by
    have ⟨hf, hr⟩ := h
    subst hr
    exact hf.limit.imp_left fun h => ⟨h, rfl⟩
  of_fails h := by
    generalize hx : Expected.shallowerNesting = x at h
    induction h
    case first hb hs _ h => exact .first hb hs (limited_part.of_fails (hx ▸ h))
    case next hb hp _ hi => exact .next hb hp (hi hx)
  refused {d n u r} h hn := by
    induction h
    case first hb hs h => exact (limited_part.refused h hn).part hb hs
    case next hb hp _ hi =>
      cases limited_part.limit hp (n := n)
      case inl hp => exact hi.parts hb hp
      case inr hr => exact hr.part_append hb hp
  counted h := by
    induction h
    case first h =>
      have ⟨hd, hr⟩ := limited_part.counted h
      exact ⟨by simp; omega, hr⟩
    case next hi => exact ⟨by simp; omega, hi.2⟩

theorem Refused.query (h : Refused (PartsFails n) w r) (ht : TypeFound v u (w ++ r)) :
    Refused (Query.Fails n) (u ++ w) r :=
  h.behind u fun he hf => .parts (he ▸ ht) hf

theorem limited_query :
    Limited (fun n (q : Query) u r => q.Found n u ∧ r = []) Query.Fails Query.Opens where
  found_mono h hn := by
    have ⟨⟨t, v, hu, ht, hv⟩, hr⟩ := h
    exact ⟨⟨t, v, hu, ht, hv.mono hn⟩, hr⟩
  fails_mono h hx hn := by
    cases h
    case type h => exact .type h
    case parts ht h => exact .parts ht (limited_parts.fails_mono h hx hn)
  limit {n m q u r} h := by
    have ⟨⟨t, v, hu, ht, hv⟩, hr⟩ := h
    subst hu hr
    cases hv.limit (n := n)
    case inl hv => exact .inl ⟨⟨t, v, rfl, ht, hv⟩, rfl⟩
    case inr hr => exact .inr <| hr.query (by simpa using ht)
  of_fails h := by
    cases h
    case type h => cases h
    case parts ht h => exact .intro ht (limited_parts.of_fails h)
  refused h hn := by
    cases h
    case intro ht h => exact (limited_parts.refused h hn).query ht
  counted h := by
    cases h
    case intro h =>
      have ⟨hd, hr⟩ := limited_parts.counted h
      exact ⟨by simp; omega, hr⟩

variable {text : String} {d n m : Nat}

theorem compile_eq_shallowerNesting_iff :
    compile ⟨n⟩ text = .error ⟨o, .shallowerNesting⟩ ↔
      ∃ u r, Query.normalize text = u ++ r ∧ Query.Fails n u .shallowerNesting r ∧ o = size u := by
  rw [compile_eq_error_iff]
  constructor
  case mp =>
    intro ⟨u, x, r, hu, hf, he⟩
    cases he
    exact ⟨u, r, hu, hf, rfl⟩
  case mpr =>
    intro ⟨u, r, hu, hf, ho⟩
    exact ⟨u, _, r, hu, hf, by rw [ho]⟩

-- More than `d` levels are opened in the text.
def NeedsDeeper (text : String) (d : Nat) : Prop :=
  ∃ o, compile ⟨d⟩ text = .error ⟨o, .shallowerNesting⟩

theorem Query.Opens.error (h : Query.Opens d u r) (hu : Query.normalize text = u ++ r)
    (hn : n ≤ d) :
    ∃ v t, u = v ++ t ∧ compile ⟨n⟩ text = .error ⟨size v, .shallowerNesting⟩ := by
  have ⟨v, t, hv, hf⟩ := limited_query.refused h hn
  refine ⟨v, t, hv, compile_eq_shallowerNesting_iff.mpr ⟨v, t ++ r, ?_, hf, rfl⟩⟩
  rw [hu, hv, List.append_assoc]

namespace NeedsDeeper

theorem opens (h : NeedsDeeper text d) :
    ∃ u r, Query.normalize text = u ++ r ∧ Query.Opens d u r ∧
      compile ⟨d⟩ text = .error ⟨size u, .shallowerNesting⟩ := by
  have ⟨o, ho⟩ := h
  have ⟨u, r, hu, hf, hs⟩ := compile_eq_shallowerNesting_iff.mp ho
  exact ⟨u, r, hu, limited_query.of_fails hf, hs ▸ ho⟩

theorem of_opens (h : Query.Opens d u r) (hu : Query.normalize text = u ++ r) :
    NeedsDeeper text d :=
  have ⟨v, _, _, hv⟩ := h.error hu (Nat.le_refl d)
  ⟨size v, hv⟩

theorem anti (h : NeedsDeeper text d) (hn : n ≤ d) : NeedsDeeper text n := by
  have ⟨u, r, hu, hf, _⟩ := h.opens
  have ⟨v, _, _, hv⟩ := hf.error hu hn
  exact ⟨size v, hv⟩

theorem lt_count (h : NeedsDeeper text d) : d < (Query.normalize text).countP isOpening := by
  have ⟨u, r, hu, hf, _⟩ := h.opens
  have ⟨hd, c, t, hr, hc⟩ := limited_query.counted hf
  rw [hu, hr, List.countP_append, List.countP_cons_of_pos hc]
  omega

theorem exists_threshold (text : String) :
    ∃ N, N ≤ (Query.normalize text).countP isOpening ∧ ∀ d, NeedsDeeper text d ↔ d < N := by
  classical
  have he : ∃ n, ¬NeedsDeeper text n := ⟨_, fun h => Nat.lt_irrefl _ h.lt_count⟩
  refine ⟨Nat.find he, Nat.find_min' he fun h => Nat.lt_irrefl _ h.lt_count, ?_⟩
  intro d
  constructor
  case mp =>
    intro h
    by_contra hd
    exact Nat.find_spec he <| h.anti (Nat.not_lt.mp hd)
  case mpr =>
    intro hd
    exact not_not.mp (Nat.find_min he hd)

-- The level which is refused is the first one that is opened at its depth, as each later one is
-- only reached with a deeper limit.
theorem first (h : NeedsDeeper text d) :
    ∃ u c r, Query.normalize text = u ++ c :: r ∧ (c = '(' ∨ c = '[') ∧ Query.Opens d u (c :: r) ∧
      (∀ v t, Query.normalize text = v ++ t → Query.Opens d v t → size u ≤ size v) ∧
      compile ⟨d⟩ text = .error ⟨size u, .shallowerNesting⟩ := by
  obtain ⟨u, r, hu, hf, hc⟩ := h.opens
  obtain ⟨_, c, t, hr, hb⟩ := limited_query.counted hf
  subst hr
  refine ⟨u, c, t, hu, by simpa [isOpening] using hb, hf, ?_, hc⟩
  intro v s hv hf'
  obtain ⟨w, z, hw, hc'⟩ := hf'.error hv (Nat.le_refl d)
  have hs : size u = size w := by simpa using hc.symm.trans hc'
  simp [hs, hw]

end NeedsDeeper

-- Levels which are not needed change nothing.
theorem compile_eq_of_le (h : ¬NeedsDeeper text n) (hn : n ≤ m) :
    compile ⟨m⟩ text = compile ⟨n⟩ text := by
  cases hc : compile ⟨n⟩ text
  case ok d =>
    have ⟨q, hq, hd⟩ := compile_eq_ok_iff.mp hc
    have ⟨hq, _⟩ := limited_query.found_mono ⟨hq, rfl⟩ hn
    exact compile_eq_ok_iff.mpr ⟨q, hq, hd⟩
  case error e =>
    have ⟨u, x, r, hu, hf, he⟩ := compile_eq_error_iff.mp hc
    have hx : x ≠ .shallowerNesting := by
      intro hx
      exact h ⟨size u, by rw [hc, he, hx]⟩
    exact compile_eq_error_iff.mpr ⟨u, x, r, hu, limited_query.fails_mono hf hx hn, he⟩

-- As many levels are just enough as groups and clauses nest in what is read of the text. A limit
-- below that takes effect where the first one is opened in as many others as it allows.
theorem compile_threshold (text : String) :
    ∃ N, N ≤ (Query.normalize text).countP (fun c => c = '(' || c = '[') ∧
      (∀ d, (∃ o, compile ⟨d⟩ text = .error ⟨o, .shallowerNesting⟩) ↔ d < N) ∧
      (∀ d, N ≤ d → compile ⟨d⟩ text = compile ⟨N⟩ text ∧
        ∀ u r, Query.normalize text = u ++ r → ¬Query.Opens d u r) ∧
      ∀ d < N, ∃ u c r, Query.normalize text = u ++ c :: r ∧ (c = '(' ∨ c = '[') ∧
        Query.Opens d u (c :: r) ∧
        (∀ v t, Query.normalize text = v ++ t → Query.Opens d v t → size u ≤ size v) ∧
        compile ⟨d⟩ text = .error ⟨size u, .shallowerNesting⟩ := by
  have ⟨N, hN, hd⟩ := NeedsDeeper.exists_threshold text
  refine ⟨N, hN, hd, ?_, fun d hn => ((hd d).mpr hn).first⟩
  intro d hn
  refine ⟨compile_eq_of_le (mt (hd N).mp (Nat.lt_irrefl N)) hn, ?_⟩
  intro u r hu h
  have hd := (hd d).mp (NeedsDeeper.of_opens h hu)
  omega

end SearchQuery
