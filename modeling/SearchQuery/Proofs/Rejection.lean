import SearchQuery.Proofs.Acceptance

namespace SearchQuery

open Text Cursor

-- What the logical part of a query is made of.
inductive Category
  | operand (op : Operator)
  | item
  | group
  | sequence (scope : Scope)

namespace Category

def Tree : Category → Type
  | operand _  => Operand
  | item       => Item
  | group      => Fragment
  | sequence _ => Fragment

def parser (n : Nat) : (c : Category) → Parser c.Tree
  | operand _      => Parser.operand (Parser.group n).run
  | item           => Parser.item (Parser.group n).run
  | group          => (Parser.group n).run
  | sequence scope => Parser.sequence (Parser.items (Parser.group n)) scope

-- Before `u ++ r`, the element `t` of the category is written as `u`.
def Found (n : Nat) (u r : List Char) : (c : Category) → (t : c.Tree) → Prop
  | operand op, o     => Operand.Found n op o u r
  | item, i           => Item.Found n i u r
  | group, f          => Fragment.Grouped n f u r
  | sequence scope, f => Fragment.Found n scope f u r

end Category

open Category

-- Before `u ++ r`, an element of the category is missing `x` behind `u`.
inductive Fails : Nat → Category → List Char → Expected → List Char → Prop
  | operandMissing :
    (∀ c ∈ r.head?, isBlank c ∨ c = ')') → Fails n (operand op) [] .value r
  | operandPhrase :
    phraseBody? u = none → Fails n (operand op) ('"' :: u) .closingQuote []
  | operandGroup :
    (u ++ r).head? = some '(' → Fails n group u x r → Fails n (operand op) u x r
  | itemMissing :
    (∀ c ∈ r.head?, c = ')') → Fails n item [] .expression r
  | itemBlank :
    isBlank c → Fails n item [] .value (c :: r)
  | itemPhrase :
    phraseBody? u = none → Fails n item ('"' :: u) .closingQuote []
  | itemGroup :
    (u ++ r).head? = some '(' → Fails n group u x r → Fails n item u x r
  | itemValue {op : Operator} :
    IsWord isKeyChar w → op.Longest (u ++ r) → Fails n (operand op) u x r →
    Fails n item (w ++ (op.chars ++ u)) x r
  | groupOpen :
    r.head? ≠ some '(' → Fails n group [] .openParen r
  | groupDeep :
    Fails 0 group [] .shallowerNesting ('(' :: r)
  | groupInside :
    IsBlank b → Stops isBlank (u ++ r) → Fails n (sequence .group) u x r →
    Fails (n + 1) group ('(' :: (b ++ u)) x r
  | groupUnclosed {f : Fragment} :
    IsBlank b → f.Found n .group u [] → Fails (n + 1) group ('(' :: (b ++ u)) .closingParen []
  | sequenceFirst :
    Fails n item u x r → Fails n (sequence scope) u x r
  | sequenceEnd {i : Item} {k : Connector} :
    i.Found n u (b₁ ++ (w ++ (b₂ ++ r))) → IsBlank b₁ → k.Spelling w → IsBlank b₂ →
    Stops isWordChar (b₂ ++ r) → scope.Ends r →
    Fails n (sequence scope) (u ++ (b₁ ++ (w ++ b₂))) .expression r
  | sequenceNext {i : Item} {j : Junction} :
    i.Found n u (m ++ (v ++ r)) → j.Found scope m (v ++ r) → Fails n (sequence scope) v x r →
    Fails n (sequence scope) (u ++ (m ++ v)) x r

namespace Parser

theorem rejects_fails (h : Fails n c u x r) : Rejects (c.parser n) u x r := by
  induction h
  case operandMissing h => exact rejects_operand_missing h
  case operandPhrase h => exact rejects_operand_phrase h
  case operandGroup h _ hi => exact rejects_operand_group h hi
  case itemMissing h => exact rejects_item_missing h
  case itemBlank h =>
    refine rejects_item_keyed (rejects_keyed_blank (by simpa using h)) rfl ?_
    refine ⟨?_, ?_, ?_⟩
    all_goals
      intro he
      simp [he, isBlank, blankRanges] at h
  case itemPhrase h => exact rejects_item_phrase h
  case itemGroup h _ hi => exact rejects_item_group h hi
  case itemValue hw hl _ hi =>
    obtain ⟨d, t, hd, hk, hq⟩ := hw.head
    have hr := rejects_keyed_compare hw.chars hw.ne_nil hl hi
    simp [isKeyChar] at hk
    exact rejects_item_keyed hr (d := d) (by simp [hd]) (by simp_all [StartsKeyed])
  case groupOpen h => exact rejects_group_open h
  case groupDeep => exact rejects_refuseLevel
  case groupInside hb hs _ hi => exact rejects_enclosed_inside hb hs hi
  case groupUnclosed hb hf =>
    exact rejects_enclosed_unclosed hb (by simpa using hf.stops) (accepts_sequence _ hf)
  case sequenceFirst hi => exact rejects_sequence_first hi
  case sequenceEnd hf hb₁ hw hb₂ hs he =>
    obtain ⟨c, t, hc, _, hn⟩ := hw.head
    refine rejects_sequence_junction (accepts_item _ (by simpa using hf)) <|
      rejects_junction? hb₁ ?_ ?_ (rejects_junction_connector hw hb₂ hs he.stops he)
    · simp [hc, hn]
    · simpa using Scope.not_ends_of_spelling hw
  case sequenceNext hf hj _ hi =>
    exact rejects_sequence_rest (accepts_item _ hf) (accepts_junction? hj) hi

end Parser

namespace Category

-- There is no third way: each text starts with an element of the category, or misses something.
def Decides (n : Nat) (c : Category) (cs : List Char) : Prop :=
  (∃ t u r, cs = u ++ r ∧ c.Found n u r t) ∨ ∃ u x r, cs = u ++ r ∧ Fails n c u x r

variable {n : Nat} {scope : Scope} {op : Operator} {b cs r : List Char}

theorem decides_phrase (cs : List Char) :
    (∃ u t r, '"' :: cs = u ++ r ∧ IsPhrase u t) ∨ phraseBody? cs = none := by
  cases h : phraseBody? cs
  case none => exact .inr rfl
  case some p =>
    have ⟨r, hr⟩ := prefix_of_phraseBody? h
    refine .inl ⟨_, p.2, r, ?_, p.1, rfl, phraseBody?_body h⟩
    simp [← hr]

theorem decides_operand (hl : op.Longest cs) (hg : group.Decides n cs) :
    (operand op).Decides n cs := by
  cases cs
  case nil => exact .inr ⟨[], _, [], rfl, .operandMissing (by simp)⟩
  case cons c cs =>
    by_cases hb : isBlank c ∨ c = ')'
    case pos => exact .inr ⟨[], _, c :: cs, rfl, .operandMissing (by simpa using hb)⟩
    case neg =>
      by_cases hq : c = '"'
      case pos =>
        subst hq
        cases decides_phrase cs
        case inl h =>
          have ⟨u, t, r, he, hp⟩ := h
          exact .inl ⟨_, u, r, he, hp.operand⟩
        case inr h => exact .inr ⟨'"' :: cs, _, [], by simp, .operandPhrase h⟩
      case neg =>
        by_cases hp : c = '('
        case pos =>
          cases hg
          case inl h =>
            have ⟨f, u, r, he, hf⟩ := h
            exact .inl ⟨_, u, r, he, hf.operand⟩
          case inr h =>
            have ⟨u, x, r, he, hf⟩ := h
            exact .inr ⟨u, x, r, he, .operandGroup (by simp [← he, hp]) hf⟩
        case neg =>
          have hc : isWordChar c := by simp_all [isWordChar]
          have ⟨u, r, he, hu, hr⟩ := exists_span_cons hc cs
          refine .inl ⟨.atom (.word (.ofList (c :: u))), c :: u, r, by simp [he], ?_⟩
          refine ⟨⟨?_, ?_⟩, Nat.zero_le _, by simp [Atom.literal], .inr hr⟩
          · exact ⟨by simp, by simpa using hu, by simpa using hq⟩
          · exact hl.congr (by simp)

-- What starts with a colon is a word, since an operator needs a key.
theorem decides_colon : item.Decides n (':' :: cs) := by
  have ⟨u, r, he, hu, hr⟩ := exists_span_cons (p := isWordChar) (c := ':') rfl cs
  refine .inl ⟨.free (.word (.ofList (':' :: u))), ':' :: u, r, by simp [he], ?_⟩
  refine ⟨?_, Nat.zero_le _, by simp [Atom.literal], .inr hr⟩
  exact ⟨⟨by simp, by simpa using hu, by simp⟩, by simp⟩

theorem decides_key (hg : ∀ cs, group.Decides n cs) (hk : isKeyChar c) (hq : c ≠ '"') :
    item.Decides n (c :: cs) := by
  have ⟨u, r, he, hu, hr⟩ := exists_span_cons hk cs
  have hw : IsWord isKeyChar (c :: u) := ⟨by simp, hu, by simpa using hq⟩
  by_cases hd : r.head? = some ':'
  case pos =>
    have ⟨v, hv⟩ := List.head?_eq_some_iff.mp hd
    have ⟨op, v, ho, hl⟩ := Operator.exists_longest v
    cases decides_operand hl (hg v)
    case inl h =>
      have ⟨o, w, t, he', hf⟩ := h
      exact .inl ⟨_, c :: u ++ (op.chars ++ w), t, by simp [he, hv, ho, he'], hf.compare hw⟩
    case inr h =>
      have ⟨w, x, t, he', hf⟩ := h
      refine .inr ⟨c :: u ++ (op.chars ++ w), x, t, ?_, .itemValue hw (he' ▸ hl) hf⟩
      simp [he, hv, ho, he']
  case neg =>
    have hr : Stops isWordChar r := by
      intro d h
      have := hr d h
      simp_all [isKeyChar, isWordChar]
      grind
    refine .inl ⟨.free (.word (.ofList (c :: u))), c :: u, r, by simp [he], ?_⟩
    exact ⟨by simpa using hw.isFreeWord, Nat.zero_le _, by simp [Atom.literal], .inr hr⟩

theorem decides_item (hg : ∀ cs, group.Decides n cs) : item.Decides n cs := by
  cases cs
  case nil => exact .inr ⟨[], _, [], rfl, .itemMissing (by simp)⟩
  case cons c cs =>
    by_cases hp : c = ')'
    case pos => exact .inr ⟨[], _, c :: cs, rfl, .itemMissing (by simpa using hp)⟩
    by_cases hb : isBlank c
    case pos => exact .inr ⟨[], _, c :: cs, rfl, .itemBlank hb⟩
    by_cases hq : c = '"'
    case pos =>
      subst hq
      cases decides_phrase cs
      case inl h =>
        have ⟨u, t, r, he, hp⟩ := h
        exact .inl ⟨_, u, r, he, hp.item⟩
      case inr h => exact .inr ⟨'"' :: cs, _, [], by simp, .itemPhrase h⟩
    by_cases ho : c = '('
    case pos =>
      cases hg (c :: cs)
      case inl h =>
        have ⟨f, u, r, he, hf⟩ := h
        exact .inl ⟨_, u, r, he, hf.item⟩
      case inr h =>
        have ⟨u, x, r, he, hf⟩ := h
        exact .inr ⟨u, x, r, he, .itemGroup (by simp [← he, ho]) hf⟩
    by_cases hc : c = ':'
    case pos => exact hc ▸ decides_colon
    case neg => exact decides_key hg (by simp_all [isKeyChar]) hq

-- Where a sequence goes on there is a junction, which only a connector at the end can spoil.
theorem decides_junction (hb : IsBlank b) (hr : Stops isBlank r) (he : ¬scope.Ends r) :
    (∃ j m v, r = m ++ v ∧ Junction.Found scope (b ++ m) v j) ∨
    ∃ k w b' v, r = w ++ (b' ++ v) ∧ Connector.Spelling k w ∧ IsBlank b' ∧
      Stops isWordChar (b' ++ v) ∧ scope.Ends v := by
  cases h : Connector.at? r
  case none =>
    by_cases n : b = []
    case pos => exact .inl ⟨.touching, [], r, rfl, ⟨hr, he⟩, by simp [n], h⟩
    case neg => exact .inl ⟨.adjacent, [], r, rfl, ⟨hr, he⟩, by simpa using hb, by simpa using n, h⟩
  case some kw =>
    have ⟨k, w⟩ := kw
    have ⟨hw, t, ht, hs⟩ := Connector.at?_eq_some_iff.mp h
    have ⟨b', v, hv, hb', hr'⟩ := exists_span isBlank t
    subst ht hv
    by_cases he' : scope.Ends v
    case pos => exact .inr ⟨k, w, b', v, rfl, hw, hb', hs, he'⟩
    case neg =>
      refine .inl ⟨.connector k, w ++ b', v, by simp, ⟨hr', he'⟩, ?_⟩
      exact ⟨b, w, b', rfl, hb, hw, hb', hs⟩

-- The induction is on the length of the text, since what a junction leaves is shorter.
theorem decides_sequence (hi : ∀ cs, item.Decides n cs) (cs : List Char) :
    (sequence scope).Decides n cs := by
  generalize hl : cs.length = l
  induction l using Nat.strong_induction_on generalizing cs
  case h l ih =>
    cases hi cs
    case inr h =>
      have ⟨u, x, r, he, hf⟩ := h
      exact .inr ⟨u, x, r, he, .sequenceFirst hf⟩
    case inl h =>
      have h : ∃ i u t, cs = u ++ t ∧ Item.Found n i u t := h
      have ⟨i, u, t, he, hf⟩ := h
      have ⟨b, r, ht, hb, hr⟩ := exists_span isBlank t
      by_cases hend : scope.Ends r
      case pos =>
        refine .inl ⟨.single i, u ++ b, r, by simp [he, ht], ?_⟩
        exact Fragment.found_single.mpr ⟨u, b, rfl, ht ▸ hf, hb, hend⟩
      case neg =>
        subst ht
        cases decides_junction hb hr hend
        case inr h =>
          have ⟨k, w, b', v, hr, hw, hb', hs, hv⟩ := h
          exact .inr ⟨u ++ (b ++ (w ++ b')), _, v, by simp [he, hr],
            .sequenceEnd (hr ▸ hf) hb hw hb' hs hv⟩
        case inl h =>
          have ⟨j, m, v, hr, hj⟩ := h
          have hlt : v.length < l := by
            have ⟨c, u', hu, _⟩ := hf.spells.head hf.wellFormed
            simp [← hl, he, hr, hu]
            omega
          cases ih _ hlt v rfl
          case inl h =>
            have ⟨f, w, t, hv, hf'⟩ := h
            refine .inl ⟨.join i j f, u ++ (b ++ m ++ w), t, by simp [he, hr, hv], ?_⟩
            exact Fragment.found_join.mpr ⟨u, b ++ m, w, rfl, by simpa [hr, hv] using hf, hv ▸ hj, hf'⟩
          case inr h =>
            have ⟨w, x, t, hv, hf'⟩ := h
            refine .inr ⟨u ++ (b ++ m ++ w), x, t, by simp [he, hr, hv], ?_⟩
            exact .sequenceNext (by simpa [hr, hv] using hf) (hv ▸ hj) hf'

theorem decides_group (n : Nat) (cs : List Char) : group.Decides n cs := by
  induction n generalizing cs
  case zero =>
    by_cases ho : cs.head? = some '('
    case neg => exact .inr ⟨[], _, cs, rfl, .groupOpen ho⟩
    case pos =>
      obtain ⟨t, ht⟩ := List.head?_eq_some_iff.mp ho
      subst ht
      exact .inr ⟨[], _, _, rfl, .groupDeep⟩
  case succ n ih =>
    by_cases ho : cs.head? = some '('
    case neg => exact .inr ⟨[], _, cs, rfl, .groupOpen ho⟩
    case pos =>
      obtain ⟨t, ht⟩ := List.head?_eq_some_iff.mp ho
      obtain ⟨b, r, he, hb, hr⟩ := exists_span isBlank t
      subst ht he
      have hs : (sequence .group).Decides n r := decides_sequence (fun _ => decides_item ih) r
      cases hs
      case inr h =>
        obtain ⟨u, x, v, hv, hf⟩ := h
        exact .inr ⟨'(' :: (b ++ u), x, v, by simp [hv], .groupInside hb (hv ▸ hr) hf⟩
      case inl h =>
        have h : ∃ f u v, r = u ++ v ∧ Fragment.Found n .group f u v := h
        obtain ⟨f, u, v, hv, hf⟩ := h
        cases v
        case nil => exact .inr ⟨'(' :: (b ++ u), _, [], by simp [hv], .groupUnclosed hb hf⟩
        case cons d v =>
          have hd : d = ')' := by simpa [Scope.Ends] using hf.ends
          subst hd
          exact .inl ⟨f, '(' :: (b ++ (u ++ [')'])), v, by simp [hv], n, b, u, rfl, rfl, hb, hf⟩

end Category

namespace Parser

theorem describes_group (n : Nat) :
    Describes (fun f => f.Grouped n) (Fails n .group) (group n).run where
  accepts := accepts_group fun _ _ _ => accepts_sequence _
  rejects := rejects_fails
  decides := Category.decides_group n

theorem describes_sequence (n : Nat) (scope : Scope) :
    Describes (fun f => f.Found n scope) (Fails n (.sequence scope))
      (sequence (items (group n)) scope) where
  accepts := accepts_sequence _
  rejects := rejects_fails
  decides := Category.decides_sequence fun _ => Category.decides_item (Category.decides_group n)

-- A sequence is read up to `c` exactly if the text before `c` spells it, blanks behind it aside.
-- Outside of groups a clause may follow, which must neither be an item nor continue a word.
theorem sequence_eq_ok_iff (levels : Nat) (scope : Scope) (s : State) (f : Fragment) (c : Cursor) :
    (∃ s', sequence (items (group levels)) scope s = .ok f s' ∧ s'.cursor = c) ↔
      f.WellFormed ∧ f.nesting ≤ levels ∧ scope.Ends c.rest ∧
      ∃ w b, Reads s.cursor (w ++ b) c ∧ f.Spells w ∧ IsBlank b ∧
        (scope = .query → f.AvoidsBrackets ∧ (f.isClosed ∨ Stops isWordChar (b ++ c.rest))) := by
  constructor
  case mp =>
    intro ⟨s', hs, hc⟩
    have ⟨u, hf, hr⟩ := (describes_sequence levels scope).of_ok hs
    have ⟨w, b, hu, hw, hb, ht⟩ := hf.spells
    subst hc hu
    exact ⟨hf.wellFormed, hf.nesting, hf.ends, w, b, hr, hw, hb, fun h => ⟨hf.avoids h, ht⟩⟩
  case mpr =>
    intro ⟨hf, hn, he, w, b, hr, hw, hb, hq⟩
    have ht : f.isClosed ∨ Stops isWordChar (b ++ c.rest) := by
      cases scope
      case query => exact (hq rfl).2
      case group => exact .inr (he.stops_word hb)
    have ha := accepts_sequence f ⟨hf, fun h => (hq h).1, hn, ⟨w, b, rfl, hw, hb, ht⟩, he⟩
    have ⟨s', hs, hr'⟩ := ha s hr.rest
    refine ⟨s', hs, Cursor.ext ?_ ?_⟩
    · rw [hr.offset, hr'.offset]
    · exact List.append_cancel_left <| hr'.rest.symm.trans hr.rest

end Parser

end SearchQuery
