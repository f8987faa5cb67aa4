import SearchQuery.Proofs.Continuation

namespace SearchQuery

open Text Cursor

variable {n : Nat} {x : Expected} {b r t u v w : List Char}

-- The text `t` can be what is missing where `x` is. It is not changed when it stands at the end of
-- a query, and a value is only ever completed by the word `x`.
structure Tail (x : Expected) (t : List Char) : Prop where
  ne_nil : t ≠ []
  lines  : '\n' ∉ t
  stops  : Stops isBlank t.reverse
  value  : x = .value → t.head? = some 'x'

namespace Tail

instance : Decidable (Tail x t) :=
  decidable_of_iff (t ≠ [] ∧ '\n' ∉ t ∧ Stops isBlank t.reverse ∧ (x = .value → t.head? = some 'x'))
    ⟨fun ⟨hn, hl, hs, hv⟩ => ⟨hn, hl, hs, hv⟩, fun ⟨hn, hl, hs, hv⟩ => ⟨hn, hl, hs, hv⟩⟩

theorem close (h : Tail x t) (hc : isBlank c = false) (hn : c ≠ '\n') : Tail x (t ++ [c]) where
  ne_nil := by simp
  lines  := by simp [h.lines, hn.symm]
  stops  := by simp [hc]
  value  := by
    intro hx
    rw [List.head?_append_of_ne_nil _ h.ne_nil, h.value hx]

theorem not_opensLater (h : Tail x t) : ¬OpensLater x r (t ++ v) := by
  intro ⟨hx, _, ht⟩
  have ⟨w, hw⟩ := List.head?_eq_some_iff.mp (h.value hx)
  rw [hw, List.cons_append, List.dropWhile_cons_of_neg (by decide)] at ht
  simp at ht

end Tail

-- Whatever is open in an unfinished phrase, even an escape, one more character lets it be closed.
theorem phraseBody?_complete (h : phraseBody? u = none) :
    ∃ text, phraseBody? (u ++ ['x'] ++ ['"']) = some (u ++ ['x'], text) := by
  fun_induction phraseBody? u
  case case1 => exact ⟨_, rfl⟩
  case case2 => simp at h
  case case3 c cs hi =>
    obtain ⟨text, ht⟩ := hi (by simpa using h)
    exact ⟨c :: text, by simpa [phraseBody?] using ht⟩
  case case4 c cs hq he hi =>
    obtain ⟨text, ht⟩ := hi (by simpa using h)
    by_cases hc : c = '\\'
    case pos =>
      cases cs
      case nil => exact ⟨_, by simp [hc, phraseBody?]; rfl⟩
      case cons d cs => exact absurd rfl (he d cs hc)
    case neg => exact ⟨c :: text, by simpa [phraseBody?, hc] using ht⟩

theorem IsPhrase.complete (h : phraseBody? u = none) :
    ∃ text, IsPhrase ('"' :: u ++ ['x', '"']) text := by
  have ⟨text, ht⟩ := phraseBody?_complete h
  exact ⟨text, u ++ ['x'], by simp, ht⟩

-- The word `x` does for any item that is missing.
theorem Item.Found.filler (hr : Stops isWordChar r) : Item.Found n (.free (.word "x")) ['x'] r :=
  .word (by simp) (by simp [Char.isAlpha, Char.isLower]) hr

theorem Operand.Found.filler (hr : Stops isWordChar r) :
    Operand.Found n op (.atom (.word "x")) ['x'] r := by
  refine ⟨⟨⟨by simp, by simp; decide, by simp⟩, ?_⟩, Nat.zero_le _, rfl, .inr hr⟩
  exact .of_head? (c := 'x') rfl (by simp)

theorem Scope.Continues.filler : Scope.Continues scope ('x' :: r) where
  stops := by simp; decide
  not_ends := by
    intro he
    cases he
    case inl he => simp at he
    case inr he =>
      have ⟨_, b, hb⟩ := he
      cases b <;> simp [Bracket.opens, Bracket.keyword] at hb

theorem Fragment.Found.filler (hr : Scope.Ends .group r) :
    Found n scope (single (.free (.word "x"))) ['x'] r :=
  found_single.mpr ⟨_, [], by simp, .filler (hr.stops_word isBlank_nil), isBlank_nil, hr.of_group⟩

theorem Fragment.Grouped.filler :
    (single (.free (.word "x"))).Grouped (n + 1) ['(', 'x', ')'] r :=
  ⟨n, [], ['x'], rfl, rfl, isBlank_nil, .filler (.inl (by simp))⟩

-- What is missing can be added, wherever the element stands. Only a group has to be open already,
-- since there may be no level left for a new one.
theorem Fails.complete (h : Fails n c u x r) (hr : r = []) (hg : c = .group → u ≠ []) :
    ∃ t tree, Tail x t ∧ ∀ r, Scope.Ends .group r → c.Found n (u ++ t) r tree := by
  induction h
  case operandMissing =>
    exact ⟨['x'], _, by decide, fun r hr => .filler (hr.stops_word isBlank_nil)⟩
  case operandPhrase h =>
    have ⟨text, hp⟩ := IsPhrase.complete h
    exact ⟨['x', '"'], _, by decide, fun r _ => hp.operand⟩
  case operandGroup ho _ hi =>
    have ⟨t, f, ht, hf⟩ := hi hr fun _ hu => by simp [hu, hr] at ho
    exact ⟨t, _, ht, fun r hr => (hf r hr).operand⟩
  case itemMissing =>
    exact ⟨['x'], _, by decide, fun r hr => .filler (hr.stops_word isBlank_nil)⟩
  case itemBlank => cases hr
  case itemPhrase h =>
    have ⟨text, hp⟩ := IsPhrase.complete h
    exact ⟨['x', '"'], _, by decide, fun r _ => hp.item⟩
  case itemGroup ho _ hi =>
    have ⟨t, f, ht, hf⟩ := hi hr fun _ hu => by simp [hu, hr] at ho
    exact ⟨t, _, ht, fun r hr => (hf r hr).item⟩
  case itemValue w _ _ _ _ op hw _ _ hi =>
    have ⟨t, o, ht, ho⟩ := hi hr nofun
    refine ⟨t, .compare (.ofList w) op o, ht, fun r hr => ?_⟩
    rw [List.append_assoc, List.append_assoc]
    exact (ho r hr).compare hw
  case groupOpen => exact absurd rfl (hg rfl)
  case groupDeep => cases hr
  case groupInside b u r _ _ hb _ _ hi =>
    have ⟨t, f, ht, hf⟩ := hi hr nofun
    refine ⟨t ++ [')'], f, ht.close rfl (by simp), fun r _ => ?_⟩
    exact ⟨_, b, u ++ t, rfl, by simp, hb, hf _ (.inl (by simp))⟩
  case groupUnclosed b _ u f hb hf =>
    refine ⟨[')'], f, by decide, fun r _ => ?_⟩
    have he : Scope.Ends .group (')' :: r) := .inl (by simp)
    exact ⟨_, b, u, rfl, by simp, hb, hf.congr he fun _ => stops_cons.mpr rfl⟩
  case sequenceFirst hi =>
    have ⟨t, i, ht, hf⟩ := hi hr nofun
    refine ⟨t, .single i, ht, fun r hr => ?_⟩
    exact Fragment.found_single.mpr ⟨_, [], by simp, hf r hr, isBlank_nil, hr.of_group⟩
  case sequenceEnd n u b₁ w b₂ _ scope i k hi hb₁ hw hb₂ hs _ =>
    subst hr
    refine ⟨[' ', 'x'], .join i (.connector k) (.single (.free (.word "x"))), by decide, ?_⟩
    intro r hr
    have hb : IsBlank (b₂ ++ [' ']) := isBlank_append.mpr ⟨hb₂, isBlank_space⟩
    have hi := hi.congr (t := b₁ ++ (w ++ (b₂ ++ [])) ++ ' ' :: 'x' :: r) fun hs =>
      hs.append_right (by simp [hw.ne_nil])
    have hs := stops_of_isBlank (r := 'x' :: r) hb (by simp)
    refine Fragment.found_join.mpr ⟨u, b₁ ++ (w ++ (b₂ ++ [' '])), ['x'], by simp, ?_, ?_, .filler hr⟩
    · simpa using hi
    · exact ⟨.filler, b₁, w, b₂ ++ [' '], rfl, hb₁, hw, hb, hs⟩
  case sequenceNext n u m v _ _ _ i j hi hj hf ih =>
    have ⟨t, f, ht, hf'⟩ := ih hr nofun
    subst hr
    refine ⟨t, .join i j f, ht, ?_⟩
    intro r hr
    have hv : v ≠ [] := by
      intro hv
      exact hj.1.not_ends (.inl (by simp [hv]))
    have hi := hi.congr (t := m ++ (v ++ []) ++ (t ++ r)) fun hs => hs.append_right (by simp [hv])
    have hj := hj.append (t := t ++ r) hf ht.not_opensLater
    refine Fragment.found_join.mpr ⟨u, m, v ++ t, by simp, ?_, ?_, hf' r hr⟩
    · simpa using hi
    · simpa using hj

section

variable {α : Type}

-- What the entries of a clause have in common: what is read stays when the text goes on, or when
-- the bracket is closed, and what is refused at the end of the text can be completed.
structure Completable (Found : Nat → α → List Char → List Char → Prop)
    (Fails : Nat → List Char → Expected → List Char → Prop) : Prop where
  extend   : ∀ {n a u r t}, Found n a u r → ¬IsBlank r → Found n a u (r ++ t)
  close    : ∀ {n a u r t}, Found n a u r → Found n a u (r ++ ']' :: t)
  start    : ∀ {n r}, ∃ a, Found (n + 1) a ['x', '(', 'x', ')'] r
  complete : ∀ {n u x r}, Fails (n + 1) u x r → r = [] → x ≠ .facetName →
    ∃ t a, Tail x t ∧ ∀ r, Found (n + 1) a (u ++ t) r

end

theorem IsName.filler : IsName ['x'] where
  chars  := by simp; decide
  dotted := by decide

theorem FacetSpec.completable : Completable FacetSpec.Found FacetSpec.Fails where
  extend := .extend
  close := by
    intro n spec u r t h
    cases h
    case filtered hw hb hg => exact .filtered hw hb hg.congr
    case bare b r hb hs hn ho hw =>
      have hs : Stops isBlank (r ++ ']' :: t) := by
        cases r
        case nil => exact stops_cons.mpr rfl
        case cons => exact hs
      have hn : Stops isNameChar (b ++ (r ++ ']' :: t)) := by
        refine .append_blank hb (fun h => ?_) hn
        cases r
        case nil => exact stops_cons.mpr rfl
        case cons => exact h
      rw [List.append_assoc]
      refine .bare hw hb hs hn ?_
      cases r
      case nil => simp
      case cons => exact ho
  start := ⟨_, .filtered (b := []) .filler isBlank_nil .filler⟩
  complete := by
    intro n u x r h hr hx
    cases h
    case name => contradiction
    case filter w b u hw hb ho hf =>
      have ⟨t, f, ht, hf⟩ := hf.complete hr fun _ hu => by simp [hu, hr] at ho
      have hg (r : List Char) := FacetSpec.Found.filtered (r := r) hw hb (hf [] (.inl (by simp))).congr
      exact ⟨t, _, ht, fun r => by simpa using hg r⟩

theorem NestedSpec.completable : Completable NestedSpec.Found NestedSpec.Fails where
  extend := fun h _ => h.extend
  close := .extend
  start := ⟨_, .intro (b := []) .filler isBlank_nil .filler⟩
  complete := by
    intro n u x r h hr hx
    cases h
    case name => contradiction
    case filter w b u hw hb _ _ hf =>
      by_cases hu : u = []
      case neg =>
        have ⟨t, f, ht, hf⟩ := hf.complete hr fun _ => hu
        have hg (r : List Char) := NestedSpec.Found.intro (r := r) hw hb (hf [] (.inl (by simp))).congr
        exact ⟨t, _, ht, fun r => by simpa using hg r⟩
      case pos =>
        -- The group of the path is still to come.
        subst hu hr
        have hf' : SearchQuery.Fails (n + 1) .group [] .openParen [] := .groupOpen (by simp)
        have ⟨hx, _⟩ := (Parser.rejects_fails hf).unique (Parser.rejects_fails hf') rfl
        have hg (r : List Char) := NestedSpec.Found.intro (n := n + 1) (r := r) hw hb .filler
        exact ⟨['(', 'x', ')'], _, hx ▸ by decide, fun r => by simpa using hg r⟩

section

variable {α : Type} {Found : Nat → α → List Char → List Char → Prop}
variable {Fails : Nat → List Char → Expected → List Char → Prop} {br : Bracket}

theorem separates_nil : Separates [] (']' :: r) :=
  ⟨stops_cons.mpr rfl, [], [], isBlank_nil, isBlank_nil, .inr ⟨rfl, by simp⟩⟩

theorem EntriesFails.eq_closingBracket (h : EntriesFails (Found n) (Fails n) u x r)
    (hn : u ++ r = []) : x = .closingBracket := by
  induction h
  case unclosed => rfl
  case first h _ => contradiction
  case next hi => exact hi (by simp_all)

theorem EntriesFails.complete (hc : Completable Found Fails)
    (h : EntriesFails (Found (n + 1)) (Fails (n + 1)) u x r) (hr : r = []) (hx : x ≠ .facetName) :
    ∃ t as, Tail x t ∧ (u = [] → Stops isBlank t) ∧ EntriesFound (Found (n + 1)) as (u ++ t) [] := by
  induction h
  case unclosed =>
    have ⟨a, ha⟩ := hc.start (n := n) (r := [']'])
    exact ⟨['x', '(', 'x', ')', ']'], [a], by decide, fun _ => by decide, .last ha separates_nil⟩
  case first u r x hn hf =>
    have ⟨t, a, ht, ha⟩ := hc.complete hf hr hx
    have hu : u ≠ [] := by simpa [hr] using hn
    have h := EntriesFound.last (ha [']']) separates_nil
    exact ⟨t ++ [']'], [a], ht.close rfl (by simp), fun h => absurd h hu, by simpa using h⟩
  case next a u s v r x ha hs hb h hi =>
    subst hr
    by_cases hv : v = []
    case pos =>
      subst hv
      have hx := h.eq_closingBracket rfl
      have ⟨_, b₁, b₂, hb₁, hb₂, hs⟩ := hs
      have hs : Separates s [']'] :=
        ⟨stops_cons.mpr rfl, b₁, b₂, hb₁, hb₂, hs.imp_right fun ⟨hs, _⟩ => ⟨hs, by simp⟩⟩
      have h := EntriesFound.last (by simpa using hc.close (t := []) ha) hs
      exact ⟨[']'], [a], hx ▸ by decide, fun _ => by decide, by simpa using h⟩
    case neg =>
      have hn : v ++ [] ≠ [] := by simpa using hv
      have ⟨t, as, ht, _, hf⟩ := hi rfl hx
      have ha := hc.extend (t := t) ha (not_isBlank_of_stops hs.1 hn)
      have hs := hs.extend (t := t) hn
      refine ⟨t, a :: as, ht, fun h => by simp_all, ?_⟩
      have h := EntriesFound.cons (by simpa using ha) (by simpa using hs) ?_ hf
      · simpa using h
      · simpa [hv] using hb

theorem ClauseFails.complete (hc : Completable Found Fails) (h : ClauseFails Found Fails br n u x r)
    (hr : r = []) (hx : x ≠ .facetName) (hn : 2 ≤ n) :
    ∃ t as, Tail x t ∧ ClauseFound Found br n as (u ++ t) [] := by
  cases h
  case deep => cases hr
  case inside b₁ b₂ u n hb₁ hb₂ hs h =>
    obtain ⟨n, rfl⟩ := Nat.exists_eq_add_of_le' (show 1 ≤ n by omega)
    have ⟨t, as, ht, hu, hf⟩ := h.complete hc hr hx
    have hs : Stops isBlank (u ++ t ++ []) := by
      by_cases hn : u = []
      case pos => simpa [hn] using hu hn
      case neg =>
        rw [List.append_assoc]
        exact Stops.append_right (hs.of_append) hn
    have h := ClauseFound.intro (b := br) hb₁ hb₂ hs hf
    exact ⟨t, as, ht, by simpa using h⟩

end

theorem Part.Fails.complete (h : Part.Fails n u x r) (hr : r = []) (hu : u ≠ [])
    (hx : x ≠ .facetName) (hn : 2 ≤ n) : ∃ t p, Tail x t ∧ Part.Found n p (u ++ t) [] := by
  cases h
  case facets h =>
    have ⟨t, specs, ht, hf⟩ := h.complete FacetSpec.completable hr hx hn
    exact ⟨t, _, ht, .facets hf⟩
  case nested h =>
    have ⟨t, specs, ht, hf⟩ := h.complete NestedSpec.completable hr hx hn
    exact ⟨t, _, ht, .nested hf⟩
  case parenthesis => cases hr
  case text hb hp hf =>
    have ⟨t, f, ht, hf'⟩ := hf.complete hr nofun
    have hf' : f.Found n .query (u ++ t) [] := hf' [] (.inl (by simp))
    refine ⟨t, .text f, ht, .text ?_ hf'⟩
    intro ho
    have ⟨b, ho⟩ := hf'.opens_iff.mpr ho
    subst hr
    have ho : b.opens (u ++ [] ++ (t ++ [])) := by simpa using ho
    exact ht.not_opensLater (hf.opensLater (by simpa using hu) (hb b) ho)

theorem PartsFails.complete (h : PartsFails n u x r) (hr : r = []) (hx : x ≠ .facetName)
    (hn : 2 ≤ n) : ∃ t ps, Tail x t ∧ PartsFound n ps (u ++ t) := by
  induction h
  case first hb hs hu hf =>
    have ⟨t, p, ht, hf⟩ := hf.complete hr (by simpa [hr] using hu) hx hn
    have h := PartsFound.cons hb hf (.nil isBlank_nil)
    exact ⟨t, [p], ht, by simpa using h⟩
  case next b p u v r x hb hp h hi =>
    have ⟨t, ps, ht, hf⟩ := hi hr hx
    have hp := hp.extend (t := t) h.ne_nil
    have h := PartsFound.cons hb (by simpa [hr] using hp) hf
    exact ⟨t, p :: ps, ht, by simpa using h⟩

theorem Query.Fails.complete (h : Query.Fails n u x r) (hr : r = []) (hx : x ≠ .facetName)
    (hn : 2 ≤ n) : ∃ t q, Tail x t ∧ Query.Found n q (u ++ t) := by
  cases h
  case type h =>
    cases h
    case malformed => cases hr
    case missing =>
      have hd : Drops [] [] := by
        refine .inr ⟨rfl, ?_⟩
        intro b t w he _ _ hk
        have ⟨_, ht⟩ := List.append_eq_nil_iff.mp he.symm
        rw [ht] at hk
        cases hk
      have h := TypeFound.some (w := ['x']) (by simp) (by simp; decide) (by simp) hd
      exact ⟨['x'], ⟨_, []⟩, by decide, _, _, by simp, h, .nil isBlank_nil⟩
  case parts v u w ht hf =>
    have ⟨t, ps, htail, hp⟩ := hf.complete hr hx hn
    have ht := ht.extend (t := t) fun _ _ => hf.not_alpha
    exact ⟨t, ⟨_, ps⟩, htail, u, w ++ t, by simp, by simpa [hr] using ht, hp⟩

theorem Query.Fails.ne_nil (h : Query.Fails n u x r) : u ++ r ≠ [] := by
  cases h
  case type h => cases h <;> simp [Parser.typeKeyword]
  case parts hf =>
    have := hf.ne_nil
    simp_all

namespace Query.IsPlain

variable {q : String}

-- Only blanks at the end of what is added are lost.
theorem normalize_append (h : Query.IsPlain q) (hn : q.toList ≠ []) (s : String) :
    ∃ t, Query.normalize (q ++ s) = q.toList ++ t := by
  have ⟨hq, hr⟩ := trim_eq_self_iff.mp h.trim
  have ⟨b, t, he, hb, ht⟩ := exists_span isBlank (s.toList.filter (· ≠ '\n')).reverse
  have hs : Stops isBlank (t ++ q.toList.reverse) := by
    cases t
    case nil => exact hr
    case cons => exact ht
  refine ⟨t.reverse, ?_⟩
  have hd := dropWhile_eq_self_iff.mpr (hq.append_right (r := s.toList.filter (· ≠ '\n')) hn)
  rw [Query.normalize, String.toList_append, List.filter_append, h.filter_eq, Text.trim, hd,
    List.reverse_append, he, List.append_assoc, dropWhile_append hb hs]
  simp

theorem append (h : Query.IsPlain q) (hn : q.toList ≠ []) (ht : Tail x t) :
    Query.IsPlain (q ++ .ofList t) := by
  have ⟨hq, _⟩ := trim_eq_self_iff.mp h.trim
  refine ⟨by simp [h.lines, ht.lines], trim_eq_self_iff.mpr ⟨?_, ?_⟩⟩
  · simpa using hq.append_right (r := t) hn
  · simpa using ht.stops.append_right (r := q.toList.reverse) (by simpa using ht.ne_nil)

end Query.IsPlain

-- An error before the end of a query is final, and one at its end means that the query is not
-- finished. Only a name says nothing: it is refused where it starts, whatever is wrong with it.
theorem compile_append_of_error (options : CompilerOptions) (q : String) (e : ParseError)
    (hd : 2 ≤ options.maxDepth) (hq : Query.IsPlain q) (he : compile options q = .error e)
    (hx : e.expected ≠ .facetName) :
    (e.offset < q.utf8ByteSize → ∀ s, compile options (q ++ s) = .error e) ∧
    (e.offset = q.utf8ByteSize → ∃ s d, compile options (q ++ s) = .ok d) := by
  have ⟨u, x, r, hu, hf, he⟩ := compile_eq_error_iff.mp he
  rw [hq.normalize] at hu
  subst he
  have hn : q.toList ≠ [] := hu ▸ hf.ne_nil
  have hs : q.utf8ByteSize = size u + size r := by rw [← size_toList, hu, size_append]
  constructor
  case left =>
    intro ho s
    have hr : r ≠ [] := by
      intro hr
      simp [hs, hr] at ho
    have ⟨_, hb⟩ := trim_eq_self_iff.mp hq.trim
    have hb : Stops isBlank r.reverse := .of_append (r := u.reverse) (by simpa [hu] using hb)
    have ⟨t, ht⟩ := hq.normalize_append hn s
    exact compile_eq_error_iff.mpr ⟨u, x, r ++ t, by simp [ht, hu], hf.extend hx hb hr, rfl⟩
  case right =>
    intro ho
    have hr : r = [] := size_eq_zero_iff.mp (by simpa [hs] using ho)
    have ⟨t, d, ht, hf⟩ := hf.complete hr hx hd
    have hplain := hq.append hn ht
    refine ⟨.ofList t, d.document, compile_eq_ok_iff.mpr ⟨d, ?_, rfl⟩⟩
    rw [hplain.normalize]
    simpa [hu, hr] using hf

theorem compile_append_of_error_nested :
    (∀ s, compile .default ("k:1 nested:[a b" ++ s) = .error ⟨14, .openParen⟩) ∧
    ∃ s d, compile .default ("k:1 nested:[a" ++ s) = .ok d := by
  constructor
  case left =>
    exact (compile_append_of_error .default "k:1 nested:[a b" ⟨14, .openParen⟩ (by decide)
      (by decide +kernel) (by decide +kernel) (by decide)).1 (by decide)
  case right =>
    exact (compile_append_of_error .default "k:1 nested:[a" ⟨13, .openParen⟩ (by decide)
      (by decide +kernel) (by decide +kernel) (by decide)).2 (by decide)

end SearchQuery
