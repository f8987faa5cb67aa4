import SearchQuery.Proofs.Contents

namespace SearchQuery

open Text Cursor

-- What a facet or the filter of a nested clause says in its own words: a name, and what is to be
-- filtered by.
structure Entry where
  name   : String
  filter : Option Fragment

namespace Entry

-- How deep the filter is nested, its own parentheses included.
def nesting (e : Entry) : Nat :=
  e.filter.elim 0 (·.nesting + 1)

def Spells (u : List Char) (e : Entry) : Prop :=
  match e.filter with
  | none   => u = e.name.toList
  | some f =>
    ∃ b v, u = e.name.toList ++ (b ++ v) ∧ IsBlank b ∧ Enclosed (fun w => f.Spells w) v

-- Before `r` a bare name ends, and has no filter.
def Ends (r : List Char) (e : Entry) : Prop :=
  e.filter = none → Stops isNameChar r ∧
    ∃ b t, r = b ++ t ∧ IsBlank b ∧ Stops isBlank t ∧ t.head? ≠ some '('

end Entry

def FacetSpec.entry (spec : FacetSpec) : Entry where
  name   := spec.name
  filter := spec.filter

def NestedSpec.entry (spec : NestedSpec) : Entry where
  name   := spec.path
  filter := some spec.filter

-- Blanks with at most one comma among them.
def IsSeparator (s : List Char) : Prop :=
  ∃ b₁ b₂, IsBlank b₁ ∧ IsBlank b₂ ∧ (s = b₁ ++ b₂ ∨ s = b₁ ++ ',' :: b₂)

-- A bare name cannot touch the name behind it.
inductive SpellsEntries : List Entry → List Char → Prop
  | last :
    e.Spells u → SpellsEntries [e] u
  | cons :
    e.Spells u → IsSeparator s → (e.filter = none → s ≠ []) → SpellsEntries es v →
    SpellsEntries (e :: es) (u ++ (s ++ v))

-- The keyword, and behind it the entries in brackets.
def Bracket.Spells (b : Bracket) (es : List Entry) (u : List Char) : Prop :=
  ∃ b₁ b₂ v s, u = b.keyword ++ (b₁ ++ '[' :: (b₂ ++ (v ++ (s ++ [']'])))) ∧ IsBlank b₁ ∧
    IsBlank b₂ ∧ SpellsEntries es v ∧ IsSeparator s

-- An entry starts at `r`, or the list ends there.
def GoesOn (r : List Char) : Prop :=
  ∃ c t, r = c :: t ∧ (isNameChar c ∨ c = ']')

variable {n : Nat} {b r s u v w : List Char} {e : Entry} {es : List Entry}

theorem exists_mem_splitOn {c d : Char} (hc : c ∈ w) (hd : c ≠ d) : ∃ t ∈ w.splitOn d, c ∈ t := by
  induction w
  case nil => contradiction
  case cons x w hi =>
    obtain ⟨t, ts, hw⟩ := List.exists_cons_of_ne_nil (List.splitOn_ne_nil d w)
    rw [List.splitOn_eq_splitOnP, List.splitOnP_cons_eq_if_modifyHead, ← List.splitOn_eq_splitOnP]
    rw [hw] at hi ⊢
    by_cases hx : x = d
    case pos => simp_all
    case neg =>
      simp only [beq_iff_eq, hx, if_false, List.modifyHead_cons, List.mem_cons, exists_eq_or_imp]
      rcases List.mem_cons.mp hc with hc | hc
      case inl => exact .inl (.inl hc)
      case inr =>
        have hi := hi hc
        simp only [List.mem_cons, exists_eq_or_imp] at hi
        exact hi.imp_left .inr

-- Both say what a name is.
theorem isName_iff : IsName w ↔ IsDottedName (.ofList w) := by
  refine ⟨IsName.isDottedName, fun h => ⟨fun c hc => ?_, ?_⟩⟩
  · by_cases hd : c = '.'
    case pos => simp [hd, isNameChar]
    case neg =>
      obtain ⟨t, ht, hc⟩ := exists_mem_splitOn hc hd
      have := (h t (by simpa using ht)).2 c hc
      simp_all [isNameChar]
  · refine Parser.isDotted_iff.mpr fun hn => ?_
    exact (h [] (by simpa using hn)).1 rfl

theorem IsName.head (h : IsName w) : ∃ c t, w = c :: t ∧ isNameChar c := by
  cases w
  case nil      => exact absurd h.dotted (by simp [Parser.isDotted, Parser.isDotted.go])
  case cons c t => exact ⟨c, t, rfl, h.chars c (by simp)⟩

theorem splitLeaf_append {path leaf : List Char} (h : '.' ∉ leaf) :
    splitLeaf (path ++ '.' :: leaf) = (some path, leaf) := by
  have hl : ∀ c ∈ leaf.reverse, decide (c ≠ '.') := by grind
  have hr : Stops (fun c => decide (c ≠ '.')) ('.' :: path.reverse) := by simp
  have he : (path ++ '.' :: leaf).reverse = leaf.reverse ++ '.' :: path.reverse := by simp
  unfold splitLeaf
  rw [he, dropWhile_append hl hr, takeWhile_append hl hr]
  simp

theorem splitLeaf_of_not_mem {leaf : List Char} (h : '.' ∉ leaf) :
    splitLeaf leaf = (none, leaf) := by
  have hl : leaf.reverse.dropWhile (· ≠ '.') = [] := by
    rw [List.dropWhile_eq_nil_iff]
    grind
  unfold splitLeaf
  rw [hl]

-- There is only one way to split off the leaf of a name.
theorem FacetSpec.WellFormed.eq_ofName {spec : FacetSpec} (h : spec.WellFormed) :
    FacetSpec.ofName spec.name spec.filter = spec := by
  have ⟨hl, hs⟩ := h.split
  cases spec
  case mk name path leaf filter =>
    cases path
    case none      => simp_all [ofName, splitLeaf_of_not_mem]
    case some path => simp_all [ofName, splitLeaf_append]

theorem FacetSpec.found_iff {spec : FacetSpec} : spec.Found n u r ↔
    spec.WellFormed ∧ spec.entry.nesting ≤ n ∧ spec.entry.Spells u ∧ spec.entry.Ends r := by
  constructor
  case mp =>
    intro h
    refine ⟨h.wellFormed, ?_⟩
    cases h
    case bare b r hb hr hs ho hw =>
      refine ⟨Nat.zero_le n, by simp [Entry.Spells, entry, ofName], fun _ => ?_⟩
      exact ⟨hs, b, r, rfl, hb, hr, ho⟩
    case filtered w b v f hw hb hf =>
      obtain ⟨_, hn, hv⟩ := Fragment.grouped_iff.mp hf
      refine ⟨hn, ⟨b, v, by simp [entry, ofName], hb, hv⟩, ?_⟩
      rintro ⟨⟩
  case mpr =>
    rintro ⟨hw, hn, hu, hr⟩
    have hname : IsName spec.name.toList := isName_iff.mpr (by simpa using hw.name)
    rw [← hw.eq_ofName]
    cases hf : spec.filter
    case none =>
      obtain ⟨hs, b, t, he, hb, ht, ho⟩ := hr hf
      have hu : u = spec.name.toList := by simpa [Entry.Spells, entry, hf] using hu
      subst he hu
      simpa using FacetSpec.Found.bare (n := n) hname hb ht hs ho
    case some f =>
      obtain ⟨b, v, hu, hb, hv⟩ : ∃ b v, u = spec.name.toList ++ (b ++ v) ∧ IsBlank b ∧
          Enclosed (fun w => f.Spells w) v := by simpa [Entry.Spells, entry, hf] using hu
      have hg : f.Grouped n v r := Fragment.grouped_iff.mpr
        ⟨hw.filter f hf, by simpa [Entry.nesting, entry, hf] using hn, hv⟩
      subst hu
      simpa using FacetSpec.Found.filtered hname hb hg

theorem NestedSpec.found_iff {spec : NestedSpec} : spec.Found n u r ↔
    spec.WellFormed ∧ spec.entry.nesting ≤ n ∧ spec.entry.Spells u ∧ spec.entry.Ends r := by
  constructor
  case mp =>
    intro h
    refine ⟨h.wellFormed, ?_⟩
    cases h
    case intro w b v f hw hb hf =>
      have ⟨_, hn, hv⟩ := Fragment.grouped_iff.mp hf
      exact ⟨hn, ⟨b, v, by simp [entry], hb, hv⟩, nofun⟩
  case mpr =>
    intro ⟨hw, hn, ⟨b, v, hu, hb, hv⟩, _⟩
    have hname : IsName spec.path.toList := isName_iff.mpr (by simpa using hw.path)
    have hg : spec.filter.Grouped n v r := Fragment.grouped_iff.mpr ⟨hw.filter, hn, hv⟩
    subst hu
    simpa [entry] using NestedSpec.Found.intro hname hb hg

-- What starts an entry or ends the list is neither skipped nor the start of a filter.
theorem GoesOn.head (h : GoesOn r) :
    ∃ c t, r = c :: t ∧ isBlank c = false ∧ c ≠ ',' ∧ c ≠ '(' := by
  have ⟨c, t, hr, hc⟩ := h
  refine ⟨c, t, hr, ?_⟩
  rcases hc with hc | hc
  case inr =>
    subst hc
    decide
  case inl =>
    refine ⟨?_, ?_, ?_⟩
    · by_contra hb
      simp [not_isNameChar_of_isBlank (Bool.eq_true_of_not_eq_false hb)] at hc
    all_goals
      rintro rfl
      revert hc
      decide

theorem GoesOn.stops (h : GoesOn r) : Stops isBlank r := by
  have ⟨c, t, hr, hc, _⟩ := h.head
  simp [hr, hc]

namespace IsSeparator

theorem separates (h : IsSeparator s) (hr : GoesOn r) : Separates s r := by
  have ⟨b₁, b₂, hb₁, hb₂, hs⟩ := h
  have ⟨c, t, he, _, hc, _⟩ := hr.head
  refine ⟨hr.stops, ?_⟩
  rcases hs with hs | hs
  case inl =>
    exact ⟨s, [], hs ▸ isBlank_append.mpr ⟨hb₁, hb₂⟩, isBlank_nil, .inr ⟨rfl, by simp [he, hc]⟩⟩
  case inr => exact ⟨b₁, b₂, hb₁, hb₂, .inl hs⟩

theorem ends (h : IsSeparator s) (hr : GoesOn r)
    (hn : e.filter = none → s = [] → r.head? = some ']') : e.Ends (s ++ r) := by
  intro hf
  obtain ⟨b₁, b₂, hb₁, hb₂, hs⟩ := h
  obtain ⟨c, t, he, _, _, hc⟩ := hr.head
  have hstop : Stops isNameChar (',' :: (b₂ ++ r)) := stops_cons.mpr rfl
  rcases hs with hs | hs
  case inl =>
    have hb : IsBlank s := hs ▸ isBlank_append.mpr ⟨hb₁, hb₂⟩
    refine ⟨?_, s, r, rfl, hb, hr.stops, by simp [he, hc]⟩
    by_cases hs : s = []
    case pos =>
      have hd := hn hf hs
      subst hs he
      cases hd
      simp [isNameChar]
    case neg =>
      obtain ⟨d, v, hv⟩ := List.exists_cons_of_ne_nil hs
      simpa [hv] using not_isNameChar_of_isBlank (hb d (by simp [hv]))
  case inr =>
    subst hs
    refine ⟨by simpa using stops_name hb₁ hstop, b₁, ',' :: (b₂ ++ r), by simp, hb₁, ?_, by simp⟩
    simp [isBlank, blankRanges]

end IsSeparator

theorem Separates.isSeparator (h : Separates s r) : IsSeparator s := by
  have ⟨_, b₁, b₂, hb₁, hb₂, hs⟩ := h
  rcases hs with hs | ⟨hs, _⟩
  case inl => exact ⟨b₁, b₂, hb₁, hb₂, .inr hs⟩
  case inr => exact ⟨b₁, [], hb₁, isBlank_nil, .inl (by simpa using hs)⟩

theorem Entry.Spells.head (hn : IsDottedName e.name) (h : e.Spells u) :
    ∃ c t, u = c :: t ∧ isNameChar c := by
  have hname : IsName e.name.toList := isName_iff.mpr (by simpa using hn)
  have ⟨c, t, ht, hc⟩ := hname.head
  unfold Entry.Spells at h
  split at h
  case h_1 => exact ⟨c, t, h.trans ht, hc⟩
  case h_2 =>
    have ⟨b, v, hu, _⟩ := h
    exact ⟨c, t ++ (b ++ v), by simp [hu, ht], hc⟩

theorem spellsEntries_cons : SpellsEntries (e :: es) u ↔ (es = [] ∧ e.Spells u) ∨
    ∃ w s v, u = w ++ (s ++ v) ∧ e.Spells w ∧ IsSeparator s ∧ (e.filter = none → s ≠ []) ∧
      SpellsEntries es v := by
  constructor
  case mp =>
    intro h
    cases h
    case last hu                => exact .inl ⟨rfl, hu⟩
    case cons s v w hs hw hn hv => exact .inr ⟨w, s, v, rfl, hw, hs, hn, hv⟩
  case mpr =>
    rintro (⟨rfl, hu⟩ | ⟨w, s, v, rfl, hw, hs, hn, hv⟩)
    case inl => exact .last hu
    case inr => exact .cons hw hs hn hv

theorem SpellsEntries.head (h : SpellsEntries es u) (hn : ∀ e ∈ es, IsDottedName e.name) :
    ∃ c t, u = c :: t ∧ isNameChar c := by
  cases h
  case last hu => exact hu.head (hn _ (by simp))
  case cons hw _ _ _ =>
    have ⟨c, t, hc, hs⟩ := hw.head (hn _ (by simp))
    exact ⟨c, _, by simp only [hc, List.cons_append]; rfl, hs⟩

-- What is found as `a` is spelled by its entry.
structure Listable {α : Type} (Found : Nat → α → List Char → List Char → Prop) (Valid : α → Prop)
    (entry : α → Entry) : Prop where
  found : ∀ {n a u r}, Found n a u r ↔
    Valid a ∧ (entry a).nesting ≤ n ∧ (entry a).Spells u ∧ (entry a).Ends r
  name  : ∀ {a}, Valid a → IsDottedName (entry a).name

theorem FacetSpec.listable : Listable Found WellFormed entry where
  found := found_iff
  name  := WellFormed.name

theorem NestedSpec.listable : Listable Found WellFormed entry where
  found := found_iff
  name  := WellFormed.path

namespace Listable

variable {α : Type} {Found : Nat → α → List Char → List Char → Prop} {Valid : α → Prop}
variable {entry : α → Entry} {as : List α} {br : Bracket}

theorem entriesFound_iff (h : Listable Found Valid entry) : EntriesFound (Found n) as u r ↔
    (∀ a ∈ as, Valid a ∧ (entry a).nesting ≤ n) ∧
      ∃ v s, u = v ++ (s ++ [']']) ∧ SpellsEntries (as.map entry) v ∧ IsSeparator s := by
  constructor
  case mp =>
    intro hf
    induction hf
    case last a u s r ha hs =>
      have ⟨hv, hn, hu, _⟩ := h.found.mp ha
      exact ⟨by simpa using ⟨hv, hn⟩, u, s, rfl, .last hu, hs.isSeparator⟩
    case cons a u s v r as ha hs _ _ hi =>
      have ⟨hv, hn, hu, hr⟩ := h.found.mp ha
      obtain ⟨has, w, t, rfl, hw, ht⟩ := hi
      refine ⟨by simpa using ⟨⟨hv, hn⟩, has⟩, u ++ (s ++ w), t, by simp, ?_, ht⟩
      refine .cons hu hs.isSeparator (fun hb hs => ?_) hw
      have ⟨c, x, hc, hx⟩ := hw.head (by simpa using fun a ha => h.name (has a ha).1)
      have hstop := (hr hb).1
      simp [hs, hc, hx] at hstop
  case mpr =>
    intro ⟨has, v, t, hu, hv, ht⟩
    subst hu
    have hlast : GoesOn (']' :: r) := ⟨']', r, rfl, .inr rfl⟩
    induction as generalizing v
    case nil => cases hv
    case cons a as hi =>
      have ⟨hva, hna⟩ := has a (by simp)
      have has : ∀ a ∈ as, Valid a ∧ (entry a).nesting ≤ n := fun a ha => has a (by simp [ha])
      rcases spellsEntries_cons.mp hv with ⟨has, hu⟩ | ⟨w, s, x, hu, hw, hs, hn, hx⟩
      case inl =>
        have has : as = [] := by simpa using has
        subst has
        have he := ht.ends (e := entry a) hlast (by simp)
        exact .last (h.found.mpr ⟨hva, hna, hu, he⟩) (ht.separates hlast)
      case inr =>
        have ⟨c, y, hc, hy⟩ := hx.head (by simpa using fun a ha => h.name (has a ha).1)
        have hg : GoesOn (x ++ (t ++ [']']) ++ r) :=
          ⟨c, y ++ (t ++ ']' :: r), by simp [hc], .inl hy⟩
        have he : (entry a).Ends (s ++ (x ++ (t ++ [']']) ++ r)) :=
          hs.ends hg fun hb hs => absurd hs (hn hb)
        have hcl : (x ++ (t ++ [']']) ++ r).head? ≠ some ']' := by
          rintro hh
          simp [hc] at hh
          simp [hh, isNameChar] at hy
        have hall := EntriesFound.cons (h.found.mpr ⟨hva, hna, hw, he⟩) (hs.separates hg) hcl
          (hi has x hx)
        simpa [hu] using hall

theorem clauseFound_iff (h : Listable Found Valid entry) : ClauseFound Found br n as u r ↔
    as ≠ [] ∧ (∀ a ∈ as, Valid a ∧ (entry a).nesting + 1 ≤ n) ∧ br.Spells (as.map entry) u := by
  constructor
  case mp =>
    intro hf
    cases hf
    case intro b₁ b₂ u n hb₁ hb₂ _ hf =>
      obtain ⟨has, v, s, rfl, hv, hs⟩ := h.entriesFound_iff.mp hf
      refine ⟨?_, by simpa using has, b₁, b₂, v, s, rfl, hb₁, hb₂, hv, hs⟩
      rintro rfl
      cases hv
  case mpr =>
    intro ⟨hn, has, b₁, b₂, v, s, hu, hb₁, hb₂, hv, hs⟩
    subst hu
    obtain ⟨a, ha⟩ := List.exists_mem_of_ne_nil as hn
    obtain ⟨n, rfl⟩ : ∃ m, n = m + 1 := ⟨n - 1, by have := (has a ha).2; omega⟩
    have has : ∀ a ∈ as, Valid a ∧ (entry a).nesting ≤ n := by simpa using has
    have ⟨c, t, hc, ht⟩ := hv.head (by simpa using fun a ha => h.name (has a ha).1)
    have hg : GoesOn (v ++ (s ++ [']']) ++ r) := ⟨c, t ++ (s ++ ']' :: r), by simp [hc], .inl ht⟩
    exact .intro hb₁ hb₂ hg.stops (h.entriesFound_iff.mpr ⟨has, v, s, rfl, hv, hs⟩)

end Listable

namespace Parser

variable {α : Type} {entry : Advancing Fragment → Advancing α} {as : List α} {br : Bracket}
variable {levels : Nat} {s s' : State} {c : Cursor}

theorem opens_of_keyword (hk : keyword br s = .ok () s') (h : ['['] <+: s'.cursor.rest) :
    br.opens s.cursor.rest := by
  obtain ⟨_, s₁, he, hs⟩ := bind_eq_ok.mp hk
  obtain ⟨⟨v, hv⟩, rfl⟩ := expect_eq_ok.mp he
  obtain ⟨b, r, rfl, hb, hr⟩ := exists_span isBlank v
  have hc : (s.cursor.after br.keyword).rest = b ++ r := by simp [Cursor.after, ← hv]
  cases hs
  obtain ⟨t, ht⟩ := h
  have ht : '[' :: t = r := ht.trans (rest_skipBlank hc hb hr)
  exact Bracket.opens_iff.mpr ⟨b, t, by rw [← hv, ht], hb⟩

-- A clause which was read starts with its keyword and a bracket.
theorem opens_of_clause (h : (clause br entry levels).run s = .ok as s') :
    br.opens s.cursor.rest := by
  cases levels
  case zero =>
    obtain ⟨_, s₁, _, h⟩ := bind_eq_ok.mp h
    obtain ⟨_, s₂, _, h⟩ := bind_eq_ok.mp h
    obtain ⟨_, s₃, _, h⟩ := bind_eq_ok.mp h
    cases h
  case succ =>
    obtain ⟨_, s₁, hk, h⟩ := bind_eq_ok.mp h
    obtain ⟨_, s₂, he, _⟩ := bind_eq_ok.mp h
    exact opens_of_keyword hk (expect_eq_ok.mp he).1

variable {Found : Nat → α → List Char → List Char → Prop}
variable {Fails : Nat → List Char → Expected → List Char → Prop}
variable {Valid : α → Prop} {written : α → Entry}

theorem clause_eq_ok_iff (hl : Listable Found Valid written)
    (hd : ∀ n, Describes (Found n) (Fails n) (entry (group n)).run) :
    (∃ s', (clause br entry levels).run s = .ok as s' ∧ s'.cursor = c) ↔
      as ≠ [] ∧ (∀ a ∈ as, Valid a ∧ (written a).nesting + 1 ≤ levels) ∧
      ∃ u, Reads s.cursor u c ∧ br.Spells (as.map written) u := by
  constructor
  case mp =>
    rintro ⟨s', h, rfl⟩
    cases decides_clause hd (n := levels) (opens_of_clause h)
    case inl hf =>
      obtain ⟨bs, u, r, he, hf⟩ := hf
      obtain ⟨rfl, hr⟩ := (accepts_clause hd hf).ok he h
      have ⟨hn, has, hu⟩ := hl.clauseFound_iff.mp hf
      exact ⟨hn, has, u, hr, hu⟩
    case inr hf =>
      obtain ⟨u, x, r, he, hf⟩ := hf
      obtain ⟨t, ht⟩ := rejects_clause hd hf s he
      exact nomatch h.symm.trans ht
  case mpr =>
    rintro ⟨hn, has, u, hr, hu⟩
    obtain ⟨s', h, hr'⟩ := accepts_clause hd (hl.clauseFound_iff.mpr ⟨hn, has, hu⟩) s hr.rest
    refine ⟨s', h, Cursor.ext ?_ ?_⟩
    · rw [hr.offset, hr'.offset]
    · exact List.append_cancel_left (hr'.rest.symm.trans hr.rest)

-- A clause is read as `specs` up to `c` exactly if the text up to `c` lists their entries, with
-- nothing else than blanks and single commas between and around them.
theorem clauses_eq_ok_iff (levels : Nat) (s : State) (c : Cursor) :
    (∀ specs, (∃ s', (facetsClause levels).run s = .ok specs s' ∧ s'.cursor = c) ↔
      specs ≠ [] ∧ (∀ spec ∈ specs, spec.WellFormed ∧ spec.entry.nesting + 1 ≤ levels) ∧
      ∃ u, Reads s.cursor u c ∧ Bracket.facets.Spells (specs.map FacetSpec.entry) u) ∧
    ∀ specs, (∃ s', (nestedClause levels).run s = .ok specs s' ∧ s'.cursor = c) ↔
      specs ≠ [] ∧ (∀ spec ∈ specs, spec.WellFormed ∧ spec.entry.nesting + 1 ≤ levels) ∧
      ∃ u, Reads s.cursor u c ∧ Bracket.nested.Spells (specs.map NestedSpec.entry) u :=
  ⟨fun _ => clause_eq_ok_iff FacetSpec.listable describes_facet,
    fun _ => clause_eq_ok_iff NestedSpec.listable describes_nested⟩

end Parser

end SearchQuery
