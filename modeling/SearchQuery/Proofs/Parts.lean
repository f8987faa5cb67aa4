import SearchQuery.Compile
import SearchQuery.Proofs.Clause

namespace SearchQuery

open Text Cursor

-- The text `u` is read as the part `p` before `r`.
inductive Part.Found (n : Nat) : Part → List Char → List Char → Prop
  | facets :
    ClauseFound FacetSpec.Found .facets n specs u r → Found n (.facets specs) u r
  | nested :
    ClauseFound NestedSpec.Found .nested n specs u r → Found n (.nested specs) u r
  | text {f : Fragment} :
    ¬f.first.OpensBracket → f.Found n .query u r → Found n (.text f) u r

inductive Part.Fails (n : Nat) : List Char → Expected → List Char → Prop
  | facets :
    ClauseFails FacetSpec.Found FacetSpec.Fails .facets n u x r → Fails n u x r
  | nested :
    ClauseFails NestedSpec.Found NestedSpec.Fails .nested n u x r → Fails n u x r
  | parenthesis :
    Fails n [] .endOfInput (')' :: r)
  | text :
    (∀ b : Bracket, ¬b.opens (u ++ r)) → (u ++ r).head? ≠ some ')' →
    SearchQuery.Fails n (.sequence .query) u x r → Fails n u x r

theorem Part.Found.head {p : Part} (h : p.Found n u r) : ∃ c t, u = c :: t ∧ isBlank c = false := by
  cases h
  case facets h => exact h.head
  case nested h => exact h.head
  case text hf =>
    have ⟨c, t, hu, hc, _⟩ := hf.head
    exact ⟨c, t, hu, hc⟩

-- The text is read as a list of parts, up to its end.
inductive PartsFound (n : Nat) : List Part → List Char → Prop
  | nil :
    IsBlank b → PartsFound n [] b
  | cons :
    IsBlank b → Part.Found n p u v → PartsFound n ps v → PartsFound n (p :: ps) (b ++ (u ++ v))

inductive PartsFails (n : Nat) : List Char → Expected → List Char → Prop
  | first :
    IsBlank b → Stops isBlank (u ++ r) → u ++ r ≠ [] → Part.Fails n u x r →
    PartsFails n (b ++ u) x r
  | next :
    IsBlank b → Part.Found n p u (v ++ r) → PartsFails n v x r → PartsFails n (b ++ (u ++ v)) x r

namespace Parser

variable {n : Nat} {b r u v cs : List Char} {x : Expected} {p : Part} {ps : List Part}

theorem at?_eq_none (h : ∀ b : Bracket, ¬b.opens r) : Bracket.at? r = none := by
  cases hb : Bracket.at? r
  case none => rfl
  case some b => exact absurd (Bracket.at?_eq_some_iff.mp hb) (h b)

-- What a part is read as which starts with the bracket.
def bracketPart (n : Nat) : Bracket → Parser Part
  | .facets => .facets <$> (facetsClause n).run
  | .nested => .nested <$> (nestedClause n).run

theorem part_eq {br : Bracket} {s : State} (h : br.opens s.cursor.rest) :
    part n s = bracketPart n br s := by
  simp only [part, bind_apply, here_apply, Bracket.at?_eq_some_iff.mpr h]
  cases br <;> rfl

theorem accepts_bracket {br : Bracket} (ho : br.opens (u ++ r))
    (h : Accepts (bracketPart n br) u p r) : Accepts (part n) u p r := by
  intro s hs
  rw [part_eq (hs ▸ ho)]
  exact h s hs

theorem rejects_bracket {br : Bracket} (ho : br.opens (u ++ r))
    (h : Rejects (bracketPart n br) u x r) : Rejects (part n) u x r := by
  intro s hs
  rw [part_eq (hs ▸ ho)]
  exact h s hs

theorem accepts_part (h : p.Found n u r) : Accepts (part n) u p r := by
  cases h
  case facets h => exact accepts_bracket h.opens (accepts_clause describes_facet h).map
  case nested h => exact accepts_bracket h.opens (accepts_clause describes_nested h).map
  case text f hb hf =>
    refine .of_here fun c hc => ?_
    rw [hc, at?_eq_none fun b hb' => hb (hf.opens_iff.mp ⟨b, hb'⟩)]
    refine Accepts.map <| .of_here fun d hd => ?_
    have ⟨e, t, hu, _, hp⟩ := hf.head
    rw [if_neg (by simp [peek, hd, hu, hp])]
    exact (accepts_sequence f hf).bind_nil <| accepts_note.bind_nil .pure

theorem rejects_part (h : Part.Fails n u x r) : Rejects (part n) u x r := by
  cases h
  case facets h => exact rejects_bracket h.opens (rejects_clause describes_facet h).map
  case nested h => exact rejects_bracket h.opens (rejects_clause describes_nested h).map
  case parenthesis r =>
    refine .of_here fun c hc => ?_
    have hn : Bracket.at? c.rest = none := at?_eq_none fun b => by
      cases b <;> simp [hc, Bracket.opens, Bracket.keyword]
    rw [hn]
    exact Rejects.map <| .of_here_throw fun d hd => by simp [peek, hd]
  case text hb hp hf =>
    refine .of_here fun c hc => ?_
    rw [hc, at?_eq_none hb]
    refine Rejects.map <| .of_here fun d hd => ?_
    rw [if_neg (by simpa [peek, hd] using hp)]
    exact (rejects_fails hf).bind_left

theorem decides_bracket (n : Nat) {br : Bracket} (ho : br.opens cs) :
    (∃ p u r, cs = u ++ r ∧ Part.Found n p u r) ∨ ∃ u x r, cs = u ++ r ∧ Part.Fails n u x r := by
  cases br
  case facets =>
    obtain ⟨specs, u, r, he, hf⟩ | ⟨u, x, r, he, hf⟩ := decides_clause (n := n) describes_facet ho
    · exact .inl ⟨_, u, r, he, .facets hf⟩
    · exact .inr ⟨u, x, r, he, .facets hf⟩
  case nested =>
    obtain ⟨specs, u, r, he, hf⟩ | ⟨u, x, r, he, hf⟩ := decides_clause (n := n) describes_nested ho
    · exact .inl ⟨_, u, r, he, .nested hf⟩
    · exact .inr ⟨u, x, r, he, .nested hf⟩

theorem decides_text (n : Nat) (ho : ∀ b : Bracket, ¬b.opens cs) :
    (∃ p u r, cs = u ++ r ∧ Part.Found n p u r) ∨ ∃ u x r, cs = u ++ r ∧ Part.Fails n u x r := by
  by_cases hp : cs.head? = some ')'
  case pos =>
    have ⟨t, ht⟩ := List.head?_eq_some_iff.mp hp
    subst ht
    exact .inr ⟨[], _, _, rfl, .parenthesis⟩
  case neg =>
    cases (describes_sequence n .query).decides cs
    case inl h =>
      have ⟨f, u, r, he, hf⟩ := h
      refine .inl ⟨_, u, r, he, .text ?_ hf⟩
      intro hb
      have ⟨b, hb⟩ := hf.opens_iff.mpr hb
      exact ho b (he ▸ hb)
    case inr h =>
      have ⟨u, x, r, he, hf⟩ := h
      exact .inr ⟨u, x, r, he, .text (he ▸ ho) (he ▸ hp) hf⟩

theorem describes_part (n : Nat) : Describes (Part.Found n) (Part.Fails n) (part n) where
  accepts := accepts_part
  rejects := rejects_part
  decides := by
    intro cs
    by_cases hb : ∃ b : Bracket, b.opens cs
    case pos =>
      have ⟨_, ho⟩ := hb
      exact decides_bracket n ho
    case neg => exact decides_text n fun b ho => hb ⟨b, ho⟩

theorem parts_eq (n : Nat) : parts n = (do
    skipBlank
    let c ← here
    if c.atEnd then return [] else
      let first ← part n
      (first :: ·) <$> parts n) := by
  funext s
  have hs : skipBlank s = .ok () { s with cursor := s.cursor.skipBlank } := rfl
  rw [parts]
  simp only [bind_apply, hs, here_apply]
  split
  case isTrue => simp
  case isFalse =>
    simp only [bind_apply]
    split
    case h_1 h => simp [h]
    case h_2 h =>
      simp only [h, map_apply]
      split <;> simp_all

theorem accepts_parts (h : PartsFound n ps u) : Accepts (parts n) u ps [] := by
  induction h
  case nil hb =>
    rw [parts_eq]
    refine (accepts_skipBlank hb stops_nil).bind_nil <| .of_here fun c hc => ?_
    rw [if_pos (by simp [atEnd, hc])]
    exact .pure
  case cons hb hp _ hi =>
    obtain ⟨c, t, hu, hc⟩ := hp.head
    rw [parts_eq]
    refine (accepts_skipBlank hb (by simp [hu, hc])).bind <| .of_here fun d hd => ?_
    rw [if_neg (by simp [atEnd, hd, hu])]
    exact .bind (by simpa using accepts_part hp) hi.map

theorem rejects_parts (h : PartsFails n u x r) : Rejects (parts n) u x r := by
  induction h
  case first hb hs hn hf =>
    rw [parts_eq]
    refine .bind (accepts_skipBlank hb hs) <| .of_here fun c hc => ?_
    rw [if_neg (by simpa [atEnd, hc] using hn)]
    exact (rejects_part hf).bind_left
  case next b p u v r x hb hp _ hi =>
    obtain ⟨c, t, hu, hc⟩ := hp.head
    rw [parts_eq]
    refine .bind (accepts_skipBlank hb (by simp [hu, hc])) <| .of_here fun d hd => ?_
    rw [if_neg (by simp [atEnd, hd, hu])]
    exact .bind (by simpa using accepts_part hp) hi.map

theorem describes_parts (n : Nat) :
    Describes (fun ps u r => PartsFound n ps u ∧ r = []) (PartsFails n) (parts n) where
  accepts := fun ⟨h, hr⟩ => hr ▸ accepts_parts h
  rejects := rejects_parts
  decides := by
    intro cs
    generalize hl : cs.length = l
    induction l using Nat.strong_induction_on generalizing cs
    case h l ih =>
      obtain ⟨b, t, he, hb, hs⟩ := exists_span isBlank cs
      by_cases hn : t = []
      case pos => exact .inl ⟨[], cs, [], by simp, .nil (by simpa [he, hn, IsBlank] using hb), rfl⟩
      case neg =>
        cases (describes_part n).decides t
        case inr h =>
          obtain ⟨u, x, r, ht, hf⟩ := h
          exact .inr ⟨b ++ u, x, r, by simp [he, ht], .first hb (ht ▸ hs) (ht ▸ hn) hf⟩
        case inl h =>
          obtain ⟨p, u, r, ht, hp⟩ := h
          have hlt : r.length < l := by
            obtain ⟨c, v, hu, _⟩ := hp.head
            simp [← hl, he, ht, hu]
            omega
          cases ih _ hlt r rfl
          case inl h =>
            obtain ⟨ps, v, w, hr, hf, hw⟩ := h
            have hr : r = v := by simpa [hw] using hr
            subst hr
            exact .inl ⟨p :: ps, cs, [], by simp, by simpa [he, ht] using .cons hb hp hf, rfl⟩
          case inr h =>
            obtain ⟨v, x, w, hr, hf⟩ := h
            exact .inr ⟨b ++ (u ++ v), x, w, by simp [he, ht, hr], .next hb (hr ▸ hp) hf⟩

end Parser

-- The word of the connector `and` is dropped behind a type, and the blanks in front of it.
def Drops (d r : List Char) : Prop :=
  (∃ b w, d = b ++ w ∧ IsBlank b ∧ Connector.and.Spelling w ∧ Stops isWordChar r) ∨
  d = [] ∧ ∀ b t w, r = b ++ t → IsBlank b → Stops isBlank t → Connector.at? t ≠ some (.and, w)

inductive TypeFound : Option String → List Char → List Char → Prop
  | none :
    ¬Parser.opensTypeClause r → TypeFound none [] r
  | some :
    w ≠ [] → (∀ c ∈ w, isTypeChar c) → (∀ c ∈ (d ++ r).head?, isBlank c) → Drops d r →
    TypeFound (some (.ofList w)) (Parser.typeKeyword ++ (w ++ d)) r

inductive TypeFails : List Char → Expected → List Char → Prop
  | missing :
    Parser.opensTypeClause (Parser.typeKeyword ++ r) → Stops isTypeChar r →
    TypeFails Parser.typeKeyword .typeValue r
  | malformed :
    w ≠ [] → (∀ c ∈ w, isTypeChar c) → isTypeChar c = false → isBlank c = false →
    TypeFails (Parser.typeKeyword ++ w) .typeValue (c :: r)

namespace Parser

theorem accepts_dropAnd (h : Drops d r) : Accepts dropAnd d () r := by
  intro s hs
  cases h
  case inl h =>
    obtain ⟨b, w, hd, hb, hw, hr⟩ := h
    obtain ⟨e, t, hw', _, he⟩ := hw.head
    have hb := reads_skipBlank (c := s.cursor) (b := b) (r := w ++ r) (by simp [hs, hd]) hb
      (by simp [hw', he])
    have hrest : s.cursor.skipBlank.rest = w ++ r :=
      List.append_cancel_left <| hb.rest.symm.trans (by simp [hs, hd])
    have hc := Connector.at?_eq_some_iff.mpr ⟨hw, r, hrest, hr⟩
    refine ⟨{ s with cursor := s.cursor.skipBlank.after w }, ?_, ?_⟩
    · simp [dropAnd, connector?, hc]
    · exact hd ▸ hb.trans (.after (by simp [hrest]))
  case inr h =>
    obtain ⟨hd, hr⟩ := h
    subst hd
    obtain ⟨b, t, he, hb, ht⟩ := exists_span isBlank r
    have hc := rest_skipBlank (c := s.cursor) (by simp [hs, he]) hb ht
    refine ⟨s, ?_, .nil⟩
    unfold dropAnd
    split
    case h_1 ho =>
      obtain ⟨⟨k, w⟩, hk, hx⟩ := Option.map_eq_some_iff.mp ho
      cases hx
      exact absurd (hc ▸ hk) (hr b t w he hb ht)
    case h_2 => rfl

theorem exists_drops (cs : List Char) : ∃ d r, cs = d ++ r ∧ Drops d r := by
  have ⟨b, t, he, hb, ht⟩ := exists_span isBlank cs
  by_cases hk : ∃ w, Connector.at? t = some (.and, w)
  case pos =>
    have ⟨w, hw⟩ := hk
    have ⟨hw, r, hr, hs⟩ := Connector.at?_eq_some_iff.mp hw
    exact ⟨b ++ w, r, by simp [he, hr], .inl ⟨b, w, rfl, hb, hw, hs⟩⟩
  case neg =>
    refine ⟨[], cs, rfl, .inr ⟨rfl, ?_⟩⟩
    intro c v w hc hcb hcs hw
    have hv : v = t := by
      rw [← dropWhile_append hcb hcs, ← hc, he, dropWhile_append hb ht]
    exact hk ⟨w, hv ▸ hw⟩

theorem opensTypeClause_iff : opensTypeClause cs ↔
    ∃ r, cs = typeKeyword ++ r ∧ ∀ c ∈ r.head?, c ∉ ['>', '<', '='] := by
  constructor
  case mp =>
    intro h
    simp only [opensTypeClause, Bool.and_eq_true, List.isPrefixOf_iff_prefix] at h
    have ⟨⟨r, hr⟩, h⟩ := h
    refine ⟨r, hr.symm, ?_⟩
    intro c hc
    simp [← hr, Option.mem_def.mp hc] at h
    simpa using h
  case mpr =>
    intro ⟨r, hr, h⟩
    cases r <;> simp_all [opensTypeClause]

theorem opensTypeClause_word (hn : w ≠ []) (hw : ∀ c ∈ w, isTypeChar c) :
    opensTypeClause (typeKeyword ++ (w ++ r)) := by
  refine opensTypeClause_iff.mpr ⟨w ++ r, rfl, ?_⟩
  cases w
  case nil => contradiction
  case cons c w =>
    have hc := hw c (by simp)
    intro d hd h
    have hd : c = d := by simpa using hd
    subst hd
    simp at h
    cases h
    case inl h => simp [h, isTypeChar] at hc
    case inr h => cases h <;> simp_all [isTypeChar]

theorem atEnd_or_atBlank {c : Cursor} (hc : c.rest = r) :
    (c.atEnd || c.atBlank) ↔ ∀ d ∈ r.head?, isBlank d := by
  cases r <;> simp [atEnd, atBlank, peek, hc]

theorem accepts_typeClause {v : Option String} (h : TypeFound v u r) : Accepts typeClause u v r := by
  cases h
  case none ho =>
    refine .of_here fun c hc => ?_
    rw [if_neg (by simpa [hc] using ho)]
    exact .pure
  case some w d hn hw hb hd =>
    have ho := opensTypeClause_word (r := d ++ r) hn hw
    have hs : Stops isTypeChar (d ++ r) := fun c hc => not_isTypeChar_of_isBlank (hb c hc)
    refine .of_here fun c hc => ?_
    rw [if_pos (by simpa [hc] using ho)]
    refine accepts_expect.bind <| .of_here fun _ _ => ?_
    refine (accepts_span? rfl hw hn hs).bind <| .of_here fun e he => ?_
    rw [if_pos (atEnd_or_atBlank he |>.mpr hb)]
    exact (accepts_dropAnd hd).bind_nil <| accepts_note.bind_nil .pure

theorem rejects_typeClause (h : TypeFails u x r) : Rejects typeClause u x r := by
  cases h
  case missing ho hr =>
    intro s hs
    have hk : Accepts (expect typeKeyword .typeValue) typeKeyword () r := accepts_expect
    have ⟨s₁, hk, hr₁⟩ := hk s hs
    have hw : Accepts (take? typeWord?) [] none r := accepts_span?_none rfl hr
    have ⟨s₂, hw, _⟩ := hw s₁ (List.append_cancel_left <| hr₁.rest.symm.trans hs)
    exact ⟨s₂, by simp [typeClause, hs, ho, hk, hw, hr₁.offset]⟩
  case malformed w c r hn hw hc hb =>
    have ho := opensTypeClause_word (r := c :: r) hn hw
    refine .of_here fun d hd => ?_
    rw [if_pos (by simpa [hd] using ho)]
    refine .bind accepts_expect <| .of_here fun _ _ => ?_
    refine .bind_nil (accepts_span? rfl hw hn (stops_cons.mpr hc)) ?_
    refine .of_here_throw fun e he => if_neg ?_
    rw [atEnd_or_atBlank he]
    simpa using hb

theorem describes_typeClause : Describes TypeFound TypeFails typeClause where
  accepts := accepts_typeClause
  rejects := rejects_typeClause
  decides := by
    intro cs
    by_cases ho : opensTypeClause cs
    case neg => exact .inl ⟨none, [], cs, rfl, .none ho⟩
    case pos =>
      have ⟨t, he, ht⟩ := opensTypeClause_iff.mp ho
      have ⟨w, v, hv, hw, hs⟩ := exists_span isTypeChar t
      by_cases hn : w = []
      case pos =>
        have hv : t = v := by simpa [hn] using hv
        exact .inr ⟨typeKeyword, _, v, by rw [he, hv], .missing (by rw [← hv, ← he]; exact ho) hs⟩
      case neg =>
        by_cases hb : ∀ c ∈ v.head?, isBlank c
        case pos =>
          have ⟨d, r, hd, hr⟩ := exists_drops v
          exact .inl ⟨_, typeKeyword ++ (w ++ d), r, by simp [he, hv, hd], .some hn hw (hd ▸ hb) hr⟩
        case neg =>
          cases v
          case nil => simp at hb
          case cons c v =>
            have hb : isBlank c = false := by simpa using hb
            have hc : isTypeChar c = false := by simpa using hs
            exact .inr ⟨typeKeyword ++ w, _, c :: v, by simp [he, hv], .malformed hn hw hc hb⟩

end Parser

-- The text is read as the query `q`, up to its end.
def Query.Found (n : Nat) (q : Query) (cs : List Char) : Prop :=
  ∃ u v, cs = u ++ v ∧ TypeFound q.docType u v ∧ PartsFound n q.parts v

inductive Query.Fails (n : Nat) : List Char → Expected → List Char → Prop
  | type :
    TypeFails u x r → Fails n u x r
  | parts :
    TypeFound v u (w ++ r) → PartsFails n w x r → Fails n (u ++ w) x r

theorem Parser.describes_query (n : Nat) :
    Describes (fun q u r => q.Found n u ∧ r = []) (Query.Fails n) (query n) where
  accepts := by
    intro q u r ⟨⟨t, v, hu, ht, hv⟩, hr⟩
    subst hu hr
    have ht := accepts_typeClause ht
    exact .bind (by simpa using ht) <| (accepts_parts hv).bind_nil .pure
  rejects := by
    intro u x r h
    cases h
    case type h => exact (rejects_typeClause h).bind_left
    case parts ht hf => exact .bind (accepts_typeClause ht) (rejects_parts hf).bind_left
  decides := by
    intro cs
    cases describes_typeClause.decides cs
    case inr h =>
      have ⟨u, x, r, he, hf⟩ := h
      exact .inr ⟨u, x, r, he, .type hf⟩
    case inl h =>
      have ⟨docType, u, v, he, ht⟩ := h
      cases (describes_parts n).decides v
      case inr h =>
        have ⟨w, x, r, hv, hf⟩ := h
        exact .inr ⟨u ++ w, x, r, by simp [he, hv], .parts (hv ▸ ht) hf⟩
      case inl h =>
        have ⟨ps, w, r, hv, hf, hr⟩ := h
        have hv : v = w := by simpa [hr] using hv
        exact .inl ⟨⟨docType, ps⟩, cs, [], by simp, ⟨u, v, he, ht, hv ▸ hf⟩, rfl⟩

namespace Text

theorem size_toList (s : String) : size s.toList = s.utf8ByteSize := by
  have h (cs : List Char) : size cs = (String.ofList cs).utf8ByteSize := by
    induction cs
    case nil => simp
    case cons c cs hi =>
      rw [String.ofList_cons, String.utf8ByteSize_append, size_cons, hi]
      simp
  rw [h, String.ofList_toList]

theorem dropWhile_eq_self_iff {p : Char → Bool} : cs.dropWhile p = cs ↔ Stops p cs := by
  cases cs
  case nil => simp
  case cons c cs =>
    constructor
    case mp =>
      intro h
      have := List.head?_dropWhile_not p (c :: cs)
      simpa [h] using this
    case mpr => exact dropWhile_append (u := []) (by simp)

theorem trim_eq_self_iff : trim cs = cs ↔ Stops isBlank cs ∧ Stops isBlank cs.reverse := by
  rw [← dropWhile_eq_self_iff, ← dropWhile_eq_self_iff]
  constructor
  case mp =>
    intro h
    have h₁ := (List.dropWhile_suffix isBlank (l := cs)).length_le
    have h₂ := (List.dropWhile_suffix isBlank (l := (cs.dropWhile isBlank).reverse)).length_le
    have hl := congrArg List.length h
    simp only [trim, List.length_reverse] at hl h₂
    have he : cs.dropWhile isBlank = cs :=
      (List.dropWhile_suffix isBlank).eq_of_length (by omega)
    exact ⟨he, List.reverse_eq_iff.mp (by simpa [trim, he] using h)⟩
  case mpr =>
    intro ⟨h₁, h₂⟩
    simp [trim, h₁, h₂]

end Text

-- A text which is read as it is written.
structure Query.IsPlain (text : String) : Prop where
  lines : '\n' ∉ text.toList
  trim  : Text.trim text.toList = text.toList

instance (text : String) : Decidable (Query.IsPlain text) :=
  decidable_of_iff ('\n' ∉ text.toList ∧ Text.trim text.toList = text.toList)
    ⟨fun ⟨hl, ht⟩ => ⟨hl, ht⟩, fun ⟨hl, ht⟩ => ⟨hl, ht⟩⟩

variable {options : CompilerOptions} {text : String}

theorem Query.IsPlain.filter_eq (h : Query.IsPlain text) :
    text.toList.filter (· ≠ '\n') = text.toList :=
  List.filter_eq_self.mpr fun _ hc => decide_eq_true fun he => h.lines (he ▸ hc)

theorem Query.IsPlain.normalize (h : Query.IsPlain text) : Query.normalize text = text.toList := by
  rw [Query.normalize, h.filter_eq, h.trim]

theorem compile_eq : compile options text =
    match Parser.query options.maxDepth (.start (Query.normalize text)) with
    | .ok q _    => .ok q.document
    | .error e _ => .error e := by
  simp only [compile, compileNoting, Query.parse]
  cases Parser.query options.maxDepth (.start (Query.normalize text)) <;> rfl

theorem Query.parse_eq_ok_iff {q : Query} :
    (Query.parse n text).1 = .ok q ↔ q.Found n (Query.normalize text) := by
  have hs : (State.start (Query.normalize text)).cursor.rest = Query.normalize text := rfl
  constructor
  case mp =>
    intro h
    simp only [Query.parse] at h
    split at h
    case h_1 hq =>
      cases h
      have ⟨u, ⟨hf, hr⟩, hu⟩ := (Parser.describes_query _).of_ok hq
      have hu := hs.symm.trans hu.rest
      simpa [hu, hr] using hf
    case h_2 => cases h
  case mpr =>
    intro hf
    have hq := (Parser.describes_query n).accepts ⟨hf, rfl⟩
    have ⟨s, hq, _⟩ := hq (.start (Query.normalize text)) (by simp [hs])
    simp [Query.parse, hq]

theorem compile_eq_ok_iff : compile options text = .ok d ↔
    ∃ q : Query, q.Found options.maxDepth (Query.normalize text) ∧ q.document = d := by
  rw [compile_eq]
  constructor
  case mp =>
    intro h
    split at h
    case h_1 q s hq =>
      obtain ⟨u, ⟨hf, hr⟩, hu⟩ := (Parser.describes_query _).of_ok hq
      have hu : Query.normalize text = u := by simpa [State.start, Cursor.start, hr] using hu.rest
      exact ⟨q, hu ▸ hf, by simpa using h⟩
    case h_2 => cases h
  case mpr =>
    rintro ⟨q, hf, hd⟩
    have hq := (Parser.describes_query _).accepts ⟨hf, rfl⟩
    obtain ⟨s, hs, _⟩ := hq (.start (Query.normalize text)) (by simp [State.start, Cursor.start])
    simp [hs, hd]

theorem compile_eq_error_iff : compile options text = .error e ↔
    ∃ u x r, Query.normalize text = u ++ r ∧ Query.Fails options.maxDepth u x r ∧
      e = ⟨size u, x⟩ := by
  rw [compile_eq]
  constructor
  case mp =>
    intro h
    split at h
    case h_1 => cases h
    case h_2 hq =>
      obtain ⟨u, x, r, hu, hf, he⟩ := (Parser.describes_query _).of_error hq
      cases h
      exact ⟨u, x, r, hu, hf, by simpa [State.start, Cursor.start] using he⟩
  case mpr =>
    rintro ⟨u, x, r, hu, hf, he⟩
    obtain ⟨s, hs⟩ := (Parser.describes_query _).rejects hf (.start (Query.normalize text)) hu
    rw [hs, he]
    simp [State.start, Cursor.start]

end SearchQuery
