import SearchQuery.Proofs.Rejection

namespace SearchQuery

open Text Cursor

-- The dotted name of a facet, or of the path of a nested clause.
structure IsName (w : List Char) : Prop where
  chars  : ∀ c ∈ w, isNameChar c
  dotted : Parser.isDotted w

-- The text `u` is read as a facet before `r`. A bare facet leaves the blanks behind it.
inductive FacetSpec.Found (n : Nat) : FacetSpec → List Char → List Char → Prop
  | bare :
    IsName w → IsBlank b → Stops isBlank r → Stops isNameChar (b ++ r) → r.head? ≠ some '(' →
    Found n (.ofName (.ofList w) none) w (b ++ r)
  | filtered {f : Fragment} :
    IsName w → IsBlank b → f.Grouped n u r →
    Found n (.ofName (.ofList w) (some f)) (w ++ (b ++ u)) r

inductive FacetSpec.Fails (n : Nat) : List Char → Expected → List Char → Prop
  | name :
    (∀ c ∈ w, isNameChar c) → ¬Parser.isDotted w → Stops isNameChar r →
    Fails n [] .facetName (w ++ r)
  | filter :
    IsName w → IsBlank b → (u ++ r).head? = some '(' → SearchQuery.Fails n .group u x r →
    Fails n (w ++ (b ++ u)) x r

inductive NestedSpec.Found (n : Nat) : NestedSpec → List Char → List Char → Prop
  | intro {f : Fragment} :
    IsName w → IsBlank b → f.Grouped n u r → Found n ⟨.ofList w, f⟩ (w ++ (b ++ u)) r

inductive NestedSpec.Fails (n : Nat) : List Char → Expected → List Char → Prop
  | name :
    (∀ c ∈ w, isNameChar c) → ¬Parser.isDotted w → Stops isNameChar r →
    Fails n [] .facetName (w ++ r)
  | filter :
    IsName w → IsBlank b → Stops isBlank (u ++ r) → Stops isNameChar (b ++ (u ++ r)) →
    SearchQuery.Fails n .group u x r → Fails n (w ++ (b ++ u)) x r

-- The text `s` stands between an entry and what follows it at `r`.
def Separates (s r : List Char) : Prop :=
  Stops isBlank r ∧ ∃ b₁ b₂, IsBlank b₁ ∧ IsBlank b₂ ∧
    (s = b₁ ++ (',' :: b₂) ∨ s = b₁ ∧ r.head? ≠ some ',')

section

variable {α : Type} (Found : α → List Char → List Char → Prop)
variable (Fails : List Char → Expected → List Char → Prop)

-- At least one entry, up to the closing bracket.
inductive EntriesFound : List α → List Char → List Char → Prop
  | last :
    Found a u (s ++ ']' :: r) → Separates s (']' :: r) →
    EntriesFound [a] (u ++ (s ++ [']'])) r
  | cons :
    Found a u (s ++ (v ++ r)) → Separates s (v ++ r) → (v ++ r).head? ≠ some ']' →
    EntriesFound as v r → EntriesFound (a :: as) (u ++ (s ++ v)) r

inductive EntriesFails : List Char → Expected → List Char → Prop
  | unclosed :
    EntriesFails [] .closingBracket []
  | first :
    u ++ r ≠ [] → Fails u x r → EntriesFails u x r
  | next :
    Found a u (s ++ (v ++ r)) → Separates s (v ++ r) → (v ++ r).head? ≠ some ']' →
    EntriesFails v x r → EntriesFails (u ++ (s ++ v)) x r

end

section

variable {α : Type} (Found : Nat → α → List Char → List Char → Prop)
variable (Fails : Nat → List Char → Expected → List Char → Prop)

-- The bracket is a level of nesting, so the entries have one level less.
inductive ClauseFound (b : Bracket) : Nat → List α → List Char → List Char → Prop
  | intro :
    IsBlank b₁ → IsBlank b₂ → Stops isBlank (u ++ r) → EntriesFound (Found n) as u r →
    ClauseFound b (n + 1) as (b.keyword ++ (b₁ ++ '[' :: (b₂ ++ u))) r

inductive ClauseFails (b : Bracket) : Nat → List Char → Expected → List Char → Prop
  | deep :
    IsBlank b₁ → ClauseFails b 0 (b.keyword ++ b₁) .shallowerNesting ('[' :: r)
  | inside :
    IsBlank b₁ → IsBlank b₂ → Stops isBlank (u ++ r) → EntriesFails (Found n) (Fails n) u x r →
    ClauseFails b (n + 1) (b.keyword ++ (b₁ ++ '[' :: (b₂ ++ u))) x r

variable {Found Fails}

theorem ClauseFound.head (h : ClauseFound Found b n as u r) :
    ∃ c t, u = c :: t ∧ isBlank c = false := by
  cases h
  case intro => cases b <;> exact ⟨_, _, rfl, rfl⟩

theorem ClauseFound.opens (h : ClauseFound Found b n as u r) : b.opens (u ++ r) := by
  cases h
  case intro b₁ b₂ v _ hb₁ _ _ _ =>
    exact Bracket.opens_iff.mpr ⟨b₁, b₂ ++ (v ++ r), by simp, hb₁⟩

theorem ClauseFails.opens (h : ClauseFails Found Fails b n u x r) : b.opens (u ++ r) := by
  cases h
  case deep b₁ r hb₁ => exact Bracket.opens_iff.mpr ⟨b₁, r, by simp, hb₁⟩
  case inside b₁ b₂ v _ hb₁ _ _ _ =>
    exact Bracket.opens_iff.mpr ⟨b₁, b₂ ++ (v ++ r), by simp, hb₁⟩

end

namespace Parser

variable {n : Nat} {b r u v w s : List Char}

theorem accepts_facetName (h : IsName w) (hr : Stops isNameChar r) :
    Accepts facetName w (String.ofList w) r := by
  have hn : w ≠ [] := by
    intro hw
    subst hw
    exact absurd h.dotted (by simp [isDotted, isDotted.go])
  refine .of_here fun c _ => (accepts_span? rfl h.chars hn hr).bind_nil ?_
  have hd : isDotted (String.ofList w).toList := by simpa using h.dotted
  simpa only [if_pos hd] using .pure

theorem rejects_facetName (h : ∀ c ∈ w, isNameChar c) (hd : ¬isDotted w) (hr : Stops isNameChar r) :
    Rejects facetName [] .facetName (w ++ r) := by
  intro s hs
  by_cases hn : w = []
  case pos =>
    subst hn
    have ht : Accepts (take? Cursor.name?) [] none r := accepts_span?_none rfl hr
    have ⟨s', h, _⟩ := ht s hs
    exact ⟨s', by simp [facetName, h]⟩
  case neg =>
    have ht : Accepts (take? Cursor.name?) w (some (.ofList w)) r := accepts_span? rfl h hn hr
    have ⟨s', h, _⟩ := ht s hs
    exact ⟨s', by simp [facetName, h, hd]⟩

variable {g : Parser Fragment}

theorem accepts_filter?_none (hb : IsBlank b) (hr : Stops isBlank r) (h : r.head? ≠ some '(') :
    Accepts (filter? g) [] none (b ++ r) := by
  refine .of_here fun c hc => ?_
  rw [if_neg]
  · exact .pure
  · simpa [peek, rest_skipBlank (by simpa using hc) hb hr] using h

theorem accepts_filter?_some (hb : IsBlank b) (h : (u ++ r).head? = some '(') (hg : Accepts g u f r) :
    Accepts (filter? g) (b ++ u) (some f) r := by
  refine .of_here fun c hc => ?_
  rw [if_pos]
  · exact (accepts_skipBlank hb (stops_of_open h)).bind hg.map
  · rw [peek, rest_skipBlank (by simpa using hc) hb (stops_of_open h), h]

theorem rejects_filter? (hb : IsBlank b) (h : (u ++ r).head? = some '(') (hg : Rejects g u x r) :
    Rejects (filter? g) (b ++ u) x r := by
  refine .of_here fun c hc => ?_
  rw [if_pos]
  · exact .bind (accepts_skipBlank hb (stops_of_open h)) hg.map
  · rw [peek, rest_skipBlank (by simpa using hc) hb (stops_of_open h), h]

theorem grouped_head (h : Fragment.Grouped n f u r) : (u ++ r).head? = some '(' := by
  have ⟨_, _, _, _, hu, _⟩ := h
  simp [hu]

-- Whether a name is missing or not well formed, it is refused where it starts.
theorem decides_name (cs : List Char) : ∃ w r, cs = w ++ r ∧ (∀ c ∈ w, isNameChar c) ∧
    Stops isNameChar r ∧ (IsName w ∨ ¬isDotted w) := by
  have ⟨w, r, he, hw, hr⟩ := exists_span isNameChar cs
  by_cases hd : isDotted w
  case pos => exact ⟨w, r, he, hw, hr, .inl ⟨hw, hd⟩⟩
  case neg => exact ⟨w, r, he, hw, hr, .inr hd⟩

theorem describes_facet (n : Nat) :
    Describes (FacetSpec.Found n) (FacetSpec.Fails n) (facet (group n)).run where
  accepts := by
    intro spec u r h
    cases h
    case bare hb hr hs ho hw =>
      refine (accepts_facetName hw hs).bind_nil <| (accepts_filter?_none hb hr ho).bind_nil ?_
      exact accepts_note.bind_nil .pure
    case filtered hw hb hg =>
      have ho := grouped_head hg
      have hs := stops_name hb (stops_name_of_open ho)
      refine (accepts_facetName hw (by simpa using hs)).bind ?_
      refine (accepts_filter?_some hb ho ((describes_group n).accepts hg)).bind_nil ?_
      exact accepts_note.bind_nil .pure
  rejects := by
    intro u x r h
    cases h
    case name hw hd hr => exact (rejects_facetName hw hd hr).bind_left
    case filter hw hb ho hf =>
      have hs := stops_name hb (stops_name_of_open ho)
      refine .bind (accepts_facetName hw (by simpa using hs)) ?_
      exact (rejects_filter? hb ho (rejects_fails hf)).bind_left
  decides := by
    intro cs
    have ⟨w, t, he, hw, ht, h⟩ := decides_name cs
    cases h
    case inr hd => exact .inr ⟨[], _, cs, rfl, by rw [he]; exact .name hw hd ht⟩
    case inl hn =>
      have ⟨b, r, hr, hb, hs⟩ := exists_span isBlank t
      subst hr
      by_cases ho : r.head? = some '('
      case neg => exact .inl ⟨_, w, b ++ r, he, .bare hn hb hs ht ho⟩
      case pos =>
        cases (describes_group n).decides r
        case inl h =>
          have ⟨f, u, v, hv, hf⟩ := h
          exact .inl ⟨_, w ++ (b ++ u), v, by simp [he, hv], .filtered hn hb hf⟩
        case inr h =>
          have ⟨u, x, v, hv, hf⟩ := h
          exact .inr ⟨w ++ (b ++ u), x, v, by simp [he, hv], .filter hn hb (hv ▸ ho) hf⟩

theorem describes_nested (n : Nat) :
    Describes (NestedSpec.Found n) (NestedSpec.Fails n) (nested (group n)).run where
  accepts := by
    intro spec u r h
    cases h
    case intro hw hb hg =>
      have ho := grouped_head hg
      have hs := stops_name hb (stops_name_of_open ho)
      refine (accepts_facetName hw (by simpa using hs)).bind ?_
      refine (accepts_skipBlank hb (stops_of_open ho)).bind ?_
      refine ((describes_group n).accepts hg).bind_nil ?_
      exact accepts_note.bind_nil .pure
  rejects := by
    intro u x r h
    cases h
    case name hw hd hr => exact (rejects_facetName hw hd hr).bind_left
    case filter hw hb hs hn hf =>
      refine .bind (accepts_facetName hw (by simpa using hn)) ?_
      exact .bind (accepts_skipBlank hb hs) (rejects_fails hf).bind_left
  decides := by
    intro cs
    have ⟨w, t, he, hw, ht, h⟩ := decides_name cs
    cases h
    case inr hd => exact .inr ⟨[], _, cs, rfl, by rw [he]; exact .name hw hd ht⟩
    case inl hn =>
      have ⟨b, r, hr, hb, hs⟩ := exists_span isBlank t
      subst hr
      cases (describes_group n).decides r
      case inl h =>
        have ⟨f, u, v, hv, hf⟩ := h
        exact .inl ⟨_, w ++ (b ++ u), v, by simp [he, hv], .intro hn hb hf⟩
      case inr h =>
        have ⟨u, x, v, hv, hf⟩ := h
        exact .inr ⟨w ++ (b ++ u), x, v, by simp [he, hv], .filter hn hb (hv ▸ hs) (hv ▸ ht) hf⟩

variable {closed : Bool}

theorem accepts_separator (h : Separates s (u ++ r)) (hu : Accepts (eat [']']) u closed r) :
    Accepts separator (s ++ u) closed r := by
  have ⟨hr, b₁, b₂, hb₁, hb₂, hs⟩ := h
  cases hs
  case inl hs =>
    rw [show s ++ u = b₁ ++ ([','] ++ (b₂ ++ u)) by simp [hs]]
    exact (accepts_skipBlank hb₁ (stops_cons.mpr rfl)).bind <| accepts_eat.bind <|
      (accepts_skipBlank hb₂ hr).bind hu
  case inr hs =>
    have ⟨hs, hn⟩ := hs
    have hc : Accepts (eat [',']) [] false (u ++ r) := accepts_eat_none (not_prefix_of_head? hn)
    subst hs
    exact (accepts_skipBlank hb₁ hr).bind <| hc.nil_bind <|
      (accepts_skipBlank isBlank_nil hr).nil_bind hu

theorem exists_separates (cs : List Char) : ∃ s r, cs = s ++ r ∧ Separates s r := by
  have ⟨b₁, t, he, hb₁, ht⟩ := exists_span isBlank cs
  by_cases hc : t.head? = some ','
  case neg => exact ⟨b₁, t, he, ht, b₁, [], hb₁, isBlank_nil, .inr ⟨rfl, hc⟩⟩
  case pos =>
    have ⟨v, hv⟩ := List.head?_eq_some_iff.mp hc
    have ⟨b₂, r, hr, hb₂, hs⟩ := exists_span isBlank v
    exact ⟨b₁ ++ ',' :: b₂, r, by simp [he, hv, hr], hs, b₁, b₂, hb₁, hb₂, .inl rfl⟩

variable {α : Type} {entry : Advancing α} {as : List α}
variable {Found : α → List Char → List Char → Prop} {Fails : List Char → Expected → List Char → Prop}

theorem entries_eq (entry : Advancing α) : entries entry = (do
    let c ← here
    if c.atEnd then throw ⟨c.offset, .closingBracket⟩ else
      let first ← entry.run
      if ← separator then return [first] else (first :: ·) <$> entries entry) := by
  funext s
  rw [entries]
  simp only [bind_apply, here_apply]
  split
  case isTrue => simp
  case isFalse =>
    simp only [bind_apply]
    split
    case h_1 h => simp [h]
    case h_2 h =>
      simp only [h]
      split
      · simp_all
      · simp_all
      · simp only [*]
        split <;> simp_all

-- The end of the text is looked for before each entry.
theorem accepts_entries_cons {as : List α} (h : Accepts entry.run u a (w ++ r))
    (hr : Accepts (do if ← separator then return [a] else (a :: ·) <$> entries entry) w as r) :
    Accepts (entries entry) (u ++ w) as r := by
  rw [entries_eq]
  refine .of_here fun c hc => ?_
  rw [if_neg (by simp [atEnd, hc, h.ne_nil])]
  exact h.bind hr

theorem accepts_entries (h : Describes Found Fails entry.run) (he : EntriesFound Found as u r) :
    Accepts (entries entry) u as r := by
  induction he
  case last u s r ha hs =>
    have hc : Accepts (eat [']']) [']'] true r := accepts_eat
    refine accepts_entries_cons (h.accepts (by simpa using ha)) ?_
    exact (accepts_separator hs hc).bind_nil .pure
  case cons u s v r as ha hs hr _ hi =>
    have hc : Accepts (eat [']']) [] false (v ++ r) := accepts_eat_none (not_prefix_of_head? hr)
    refine accepts_entries_cons (h.accepts (by simpa using ha)) ?_
    exact .bind (by simpa using accepts_separator (u := []) hs hc) hi.map

theorem rejects_entries (h : Describes Found Fails entry.run) (he : EntriesFails Found Fails u x r) :
    Rejects (entries entry) u x r := by
  rw [entries_eq]
  induction he
  case unclosed => exact .of_here_throw fun c hc => by simp [atEnd, hc]
  case first u r x hn hf =>
    refine .of_here fun c hc => ?_
    rw [if_neg (by simpa [atEnd, hc] using hn)]
    exact (h.rejects hf).bind_left
  case next u s v r x ha hs hr _ hi =>
    have ha := h.accepts ha
    have hc : Accepts (eat [']']) [] false (v ++ r) := accepts_eat_none (not_prefix_of_head? hr)
    have hs := accepts_separator (u := []) hs hc
    refine .of_here fun c hc => ?_
    rw [if_neg (by simp [atEnd, hc, ha.ne_nil])]
    rw [← entries_eq] at hi
    exact .bind (by simpa using ha) <| .bind (by simpa using hs) hi.map

theorem describes_entries (h : Describes Found Fails entry.run) :
    Describes (EntriesFound Found) (EntriesFails Found Fails) (entries entry) where
  accepts := accepts_entries h
  rejects := rejects_entries h
  decides := by
    intro cs
    generalize hl : cs.length = l
    induction l using Nat.strong_induction_on generalizing cs
    case h l ih =>
      by_cases hn : cs = []
      case pos => exact .inr ⟨[], _, [], hn, .unclosed⟩
      case neg =>
        cases h.decides cs
        case inr h =>
          have ⟨u, x, r, he, hf⟩ := h
          exact .inr ⟨u, x, r, he, .first (he ▸ hn) hf⟩
        case inl hd =>
          have ⟨a, u, t, he, hf⟩ := hd
          have ⟨s, r, ht, hs⟩ := exists_separates t
          subst ht
          by_cases hc : r.head? = some ']'
          case pos =>
            have ⟨v, hv⟩ := List.head?_eq_some_iff.mp hc
            subst hv
            exact .inl ⟨[a], u ++ (s ++ [']']), v, by simp [he], .last hf hs⟩
          case neg =>
            have hlt : r.length < l := by
              have hu := (h.accepts hf).ne_nil
              have := List.length_pos_iff.mpr hu
              simp [← hl, he]
              omega
            cases ih _ hlt r rfl
            case inl h =>
              have ⟨as, v, w, hr, hf'⟩ := h
              subst hr
              exact .inl ⟨a :: as, u ++ (s ++ v), w, by simp [he], .cons hf hs hc hf'⟩
            case inr h =>
              have ⟨v, x, w, hr, hf'⟩ := h
              subst hr
              exact .inr ⟨u ++ (s ++ v), x, w, by simp [he], .next hf hs hc hf'⟩

section

variable {br : Bracket} {entry : Advancing Fragment → Advancing α}
variable {Found : Nat → α → List Char → List Char → Prop}
variable {Fails : Nat → List Char → Expected → List Char → Prop}

theorem accepts_keyword (hb : IsBlank b) (hr : Stops isBlank r) :
    Accepts (keyword br) (br.keyword ++ b) () r :=
  .bind accepts_expect (accepts_skipBlank hb hr)

theorem accepts_clause (h : ∀ n, Describes (Found n) (Fails n) (entry (group n)).run)
    (hf : ClauseFound Found br n as u r) : Accepts (clause br entry n).run u as r := by
  cases hf
  case intro b₁ b₂ u n hb₁ hb₂ hs he =>
    have hk : Accepts (keyword br) (br.keyword ++ b₁) () ('[' :: (b₂ ++ (u ++ r))) :=
      accepts_keyword hb₁ (by simp [isBlank, blankRanges])
    have ha : Accepts (clause br entry (n + 1)).run
        (br.keyword ++ b₁ ++ (['['] ++ (b₂ ++ u))) as r := by
      refine .bind (by simpa using hk) <| accepts_expect.bind <| accepts_enter.nil_bind <|
        (accepts_skipBlank hb₂ hs).bind ?_
      exact (accepts_entries (h n) he).bind_nil <| accepts_leave.bind_nil .pure
    simpa using ha

theorem rejects_clause (h : ∀ n, Describes (Found n) (Fails n) (entry (group n)).run)
    (hf : ClauseFails Found Fails br n u x r) : Rejects (clause br entry n).run u x r := by
  cases hf
  case deep hb =>
    exact .bind_nil (accepts_keyword hb (by simp [isBlank, blankRanges])) rejects_refuseLevel
  case inside b₁ b₂ u n hb₁ hb₂ hs he =>
    have hk : Accepts (keyword br) (br.keyword ++ b₁) () ('[' :: (b₂ ++ (u ++ r))) :=
      accepts_keyword hb₁ (by simp [isBlank, blankRanges])
    have ha : Rejects (clause br entry (n + 1)).run
        (br.keyword ++ b₁ ++ (['['] ++ (b₂ ++ u))) x r := by
      refine .bind (by simpa using hk) <| .bind accepts_expect <| .nil_bind accepts_enter <|
        .bind (accepts_skipBlank hb₂ hs) (rejects_entries (h n) he).bind_left
    simpa using ha

theorem decides_clause (h : ∀ n, Describes (Found n) (Fails n) (entry (group n)).run)
    (ho : br.opens cs) : (∃ as u r, cs = u ++ r ∧ ClauseFound Found br n as u r) ∨
      ∃ u x r, cs = u ++ r ∧ ClauseFails Found Fails br n u x r := by
  have ⟨b₁, t, he, hb₁⟩ := Bracket.opens_iff.mp ho
  cases n
  case zero => exact .inr ⟨br.keyword ++ b₁, _, '[' :: t, by simp [he], .deep hb₁⟩
  case succ n =>
    have ⟨b₂, v, ht, hb₂, hs⟩ := exists_span isBlank t
    cases (describes_entries (h n)).decides v
    case inl hd =>
      have ⟨as, u, r, hv, hf⟩ := hd
      exact .inl ⟨as, _, r, by simp [he, ht, hv], .intro hb₁ hb₂ (hv ▸ hs) hf⟩
    case inr hd =>
      have ⟨u, x, r, hv, hf⟩ := hd
      exact .inr ⟨_, x, r, by simp [he, ht, hv], .inside hb₁ hb₂ (hv ▸ hs) hf⟩

end

end Parser

end SearchQuery
