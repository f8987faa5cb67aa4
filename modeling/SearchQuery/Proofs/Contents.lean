import SearchQuery.Proofs.Composition
import SearchQuery.Proofs.Location

namespace SearchQuery

open Text Cursor

variable {n : Nat} {b r u v w cs : List Char} {q : Query} {d : Document}

-- Segments of letters, digits and underscores with dots between them, none of which is empty.
def IsDottedName (name : String) : Prop :=
  ∀ segment ∈ name.toList.splitOn '.', segment ≠ [] ∧ ∀ c ∈ segment, c.isAlphanum ∨ c = '_'

theorem mem_of_mem_splitOn {sep : Char} {segment : List Char} (h : segment ∈ w.splitOn sep)
    (hc : c ∈ segment) : c ∈ w ∧ c ≠ sep := by
  induction w generalizing segment
  case nil => simp_all [List.splitOn_eq_splitOnP]
  case cons d w hi =>
    obtain ⟨t, ts, hw⟩ := List.exists_cons_of_ne_nil (List.splitOn_ne_nil sep w)
    rw [List.splitOn_eq_splitOnP, List.splitOnP_cons_eq_if_modifyHead, ← List.splitOn_eq_splitOnP,
      hw] at h
    have hi {s} (hs : s ∈ t :: ts) (hc : c ∈ s) : c ∈ d :: w ∧ c ≠ sep :=
      (hi (hw ▸ hs) hc).imp_left (List.mem_cons_of_mem d)
    by_cases hd : d = sep
    case pos =>
      simp only [hd, beq_self_eq_true, if_true, List.mem_cons] at h
      cases h
      case inl h => simp [h] at hc
      case inr h => exact hi (List.mem_cons.mpr h) hc
    case neg =>
      simp only [beq_iff_eq, hd, if_false, List.modifyHead_cons, List.mem_cons] at h
      cases h
      case inl h =>
        subst h
        cases List.mem_cons.mp hc
        case inl hc => exact ⟨by simp [hc], hc ▸ hd⟩
        case inr hc => exact hi List.mem_cons_self hc
      case inr h => exact hi (List.mem_cons_of_mem t h) hc

theorem IsName.isDottedName (h : IsName w) : IsDottedName (.ofList w) := by
  intro segment hs
  rw [String.toList_ofList] at hs
  constructor
  case left =>
    intro he
    exact Parser.isDotted_iff.mp h.dotted (he ▸ hs)
  case right =>
    intro c hc
    have ⟨hm, hn⟩ := mem_of_mem_splitOn hs hc
    have := h.chars c hm
    simp_all [isNameChar]

-- The leaf of a name has no dot, and what stands in front of its dot is the path.
theorem splitLeaf_eq (name : List Char) :
    '.' ∉ (splitLeaf name).2 ∧ match (splitLeaf name).1 with
      | none      => name = (splitLeaf name).2
      | some path => name = path ++ '.' :: (splitLeaf name).2 := by
  have ht : '.' ∉ (name.reverse.takeWhile (· ≠ '.')).reverse := by
    intro h
    have := List.mem_takeWhile_imp (List.mem_reverse.mp h)
    simp at this
  have he := List.takeWhile_append_dropWhile (p := (· ≠ '.')) (l := name.reverse)
  unfold splitLeaf
  split
  case h_1 h =>
    rw [h, List.append_nil] at he
    rw [he, List.reverse_reverse] at ht
    exact ⟨ht, rfl⟩
  case h_2 c path h =>
    have hc := List.head?_dropWhile_not (· ≠ '.') name.reverse
    rw [h] at hc he
    rw [show c = '.' by simpa using hc] at he
    exact ⟨ht, by simpa using (congrArg List.reverse he).symm⟩

-- A name without dots is its own leaf. Otherwise the last dot has the leaf behind it.
def SplitsLeaf (name : String) (path : Option String) (leaf : String) : Prop :=
  '.' ∉ leaf.toList ∧ match path with
    | none      => name = leaf
    | some path => name = path ++ "." ++ leaf

theorem FacetSpec.splitsLeaf_ofName (name : String) (filter : Option Fragment) :
    SplitsLeaf name (ofName name filter).path (ofName name filter).leaf := by
  have ⟨hl, hn⟩ := splitLeaf_eq name.toList
  refine ⟨by simpa [ofName] using hl, ?_⟩
  cases hp : (splitLeaf name.toList).1
  case none =>
    rw [hp] at hn
    simp [ofName, hp, ← hn]
  case some path =>
    rw [hp] at hn
    simp [ofName, hp, ← String.toList_inj, ← hn]

-- A facet which was written, with its name and maybe a filter.
structure FacetSpec.WellFormed (spec : FacetSpec) : Prop where
  name   : IsDottedName spec.name
  split  : SplitsLeaf spec.name spec.path spec.leaf
  filter : ∀ f ∈ spec.filter, f.WellFormed

structure NestedSpec.WellFormed (spec : NestedSpec) : Prop where
  path   : IsDottedName spec.path
  filter : spec.filter.WellFormed

def Part.WellFormed : Part → Prop
  | facets specs => specs ≠ [] ∧ ∀ spec ∈ specs, spec.WellFormed
  | nested specs => specs ≠ [] ∧ ∀ spec ∈ specs, spec.WellFormed
  | text f       => f.WellFormed

theorem FacetSpec.Found.wellFormed {spec : FacetSpec} (h : spec.Found n u r) : spec.WellFormed := by
  cases h
  case bare _ _ _ _ hw => exact ⟨hw.isDottedName, splitsLeaf_ofName .., nofun⟩
  case filtered hw _ hf =>
    refine ⟨hw.isDottedName, splitsLeaf_ofName .., ?_⟩
    rintro _ ⟨⟩
    exact (Fragment.grouped_iff.mp hf).1

theorem NestedSpec.Found.wellFormed {spec : NestedSpec} (h : spec.Found n u r) :
    spec.WellFormed := by
  cases h
  case intro hw _ hf => exact ⟨hw.isDottedName, (Fragment.grouped_iff.mp hf).1⟩

theorem EntriesFound.forall {α : Type} {Found : α → List Char → List Char → Prop} {P : α → Prop}
    {as : List α} (h : EntriesFound Found as u r) (hp : ∀ {a u r}, Found a u r → P a) :
    as ≠ [] ∧ ∀ a ∈ as, P a := by
  induction h
  case last ha _      => exact ⟨by simp, by simpa using hp ha⟩
  case cons ha _ _ _ hi => exact ⟨by simp, by simpa using ⟨hp ha, hi.2⟩⟩

theorem Part.Found.wellFormed {p : Part} (h : p.Found n u r) : p.WellFormed := by
  cases h
  case facets h =>
    cases h
    case intro h => exact h.forall FacetSpec.Found.wellFormed
  case nested h =>
    cases h
    case intro h => exact h.forall NestedSpec.Found.wellFormed
  case text h => exact h.wellFormed

theorem PartsFound.wellFormed {ps : List Part} (h : PartsFound n ps u) :
    ∀ p ∈ ps, p.WellFormed := by
  induction h
  case nil => simp
  case cons hp _ hi => simpa using ⟨hp.wellFormed, hi⟩

-- A word for the type of the documents to search.
def IsTypeValue (value : String) : Prop :=
  value ≠ "" ∧ ∀ c ∈ value.toList, c.isAlphanum ∨ c = '_' ∨ c = '-'

theorem TypeFound.isTypeValue (h : TypeFound (.some value) u v) : IsTypeValue value := by
  cases h
  case some hn hw _ _ => simpa [IsTypeValue, isTypeChar, or_assoc, hn] using hw

-- What the parts of a query have in common, wherever they stand in it.
structure Query.WellFormed (q : Query) : Prop where
  docType   : ∀ value ∈ q.docType, IsTypeValue value
  facets    : ∀ specs ∈ q.facetClauses, specs ≠ [] ∧ ∀ spec ∈ specs, spec.WellFormed
  nested    : ∀ spec ∈ q.nestedSpecs, spec.WellFormed
  fragments : ∀ f ∈ q.fragments, f.WellFormed

theorem Query.Found.wellFormed (h : q.Found n cs) : q.WellFormed := by
  obtain ⟨u, v, hcs, ht, hp⟩ := h
  have hw := hp.wellFormed
  constructor
  case docType =>
    intro value hv
    rw [Option.mem_def.mp hv] at ht
    exact ht.isTypeValue
  case facets =>
    intro specs hs
    obtain ⟨p, hp, hs⟩ := List.mem_filterMap.mp hs
    have := hw p hp
    cases p <;> simp_all [Part.facetSpecs?, Part.WellFormed]
  case nested =>
    intro spec hs
    obtain ⟨p, hp, hs⟩ := List.mem_flatMap.mp hs
    have := hw p hp
    cases p <;> simp_all [Part.nestedSpecs, Part.WellFormed]
  case fragments =>
    intro f hf
    obtain ⟨p, hp, hf⟩ := List.mem_filterMap.mp hf
    have := hw p hp
    cases p <;> simp_all [Part.fragment?, Part.WellFormed]

-- A text for the backend, which has words that all have to match.
def QueryString.IsProper (s : QueryString) : Prop :=
  s.query ≠ "" ∧ s.defaultOperator = .and

-- The facet counts what `spec` asks for.
structure Facet.Counts (facet : Facet) (spec : FacetSpec) : Prop where
  size   : facet.size = 20
  field  : ∃ leaf, facet.field = leaf ++ "_nonngram" ∧ SplitsLeaf spec.name facet.nested leaf
  nested : facet.nested.isSome ↔ '.' ∈ spec.name.toList
  filter : facet.filter = spec.filter.map fun f => .ofText (f.render .filter)

theorem SplitsLeaf.isSome_iff (h : SplitsLeaf name path leaf) :
    path.isSome ↔ '.' ∈ name.toList := by
  have ⟨hl, hn⟩ := h
  cases path <;> simp_all

theorem FacetSpec.WellFormed.counts {spec : FacetSpec} (h : spec.WellFormed) :
    spec.facet.Counts spec where
  size   := rfl
  field  := ⟨spec.leaf, rfl, h.split⟩
  nested := h.split.isSome_iff
  filter := rfl

def Clause.query? : Clause → Option QueryString
  | nested _ query => some query
  | _              => none

-- All texts for the backend which a document has.
def Document.queryStrings (d : Document) : List QueryString :=
  d.text.toList ++ d.must.filterMap Clause.query? ++
    d.facets.toList.flatMap fun fs => fs.entries.filterMap (·.2.filter)

-- The document has what the query asks for, and nothing else.
structure Document.Reflects (d : Document) (q : Query) : Prop where
  should  : d.should = []
  mustNot : d.mustNot = []
  must    : d.must = (q.docType.map Clause.type).toList ++
    q.nestedSpecs.map fun spec => .nested spec.path (.ofText (spec.filter.render .filter))
  types   : ∀ value, .type value ∈ d.must → IsTypeValue value
  paths   : ∀ path text, .nested path text ∈ d.must → IsDottedName path
  text    : d.text = none ↔ q.fragments = []
  texts   : ∀ s ∈ d.queryStrings, s.IsProper
  facets  : d.facets = none ↔ q.facetClauses = []
  names   : ∀ fs ∈ d.facets, fs.entries ≠ [] ∧ ∀ name,
    name ∈ fs.entries.map (·.1) ↔
      IsDottedName name ∧ ∃ spec ∈ q.facetClauses.flatten, spec.name = name
  last    : ∀ fs ∈ d.facets, ∀ e ∈ fs.entries, ∃ front spec back,
    q.facetClauses.flatten = front ++ spec :: back ∧ spec.name = e.1 ∧ (∀ s ∈ back, s.name ≠ e.1) ∧
    e.2.Counts spec

namespace Query

theorem text_isEmpty_iff (h : PartsFound n q.parts u) : q.text.isEmpty ↔ q.fragments = [] := by
  rw [String.isEmpty_iff, text_eq, intercalate_eq_empty_iff h.texts_ne, Part.texts,
    List.map_eq_nil_iff]
  rfl

theorem mem_facets_iff {fs : Fields Facet} : fs ∈ q.document.facets ↔ q.facetClauses ≠ [] ∧
    fs = .ofList (q.facetClauses.flatten.map fun spec => (spec.name, spec.facet)) := by
  by_cases h : q.facetClauses = []
  case pos => simp [document, Query.facets, h]
  case neg => simpa [document, Query.facets, h] using eq_comm

-- An entry stands for the last facet of its name.
theorem mem_facets_last {fs : Fields Facet} (hf : fs ∈ q.document.facets) (he : e ∈ fs.entries) :
    ∃ front spec back, q.facetClauses.flatten = front ++ spec :: back ∧ (spec.name, spec.facet) = e ∧
      ∀ s ∈ back, s.name ≠ e.1 := by
  have ⟨_, hf⟩ := mem_facets_iff.mp hf
  have ⟨l₁, l₂, hs, hl⟩ := Fields.mem_ofList_iff.mp (hf ▸ he)
  have ⟨front, l₂, hs, _, h₂⟩ := List.map_eq_append_iff.mp hs
  have ⟨spec, back, hb, hspec, h₂⟩ := List.map_eq_cons_iff.mp h₂
  exact ⟨front, spec, back, by rw [hs, hb], hspec, by simpa [← h₂] using hl⟩

theorem WellFormed.facetSpec (h : q.WellFormed) :
    ∀ spec ∈ q.facetClauses.flatten, spec.WellFormed := by
  intro spec hs
  have ⟨specs, hm, hs⟩ := List.mem_flatten.mp hs
  exact (h.facets specs hm).2 spec hs

-- A clause has entries, so there is a name if there is a clause.
theorem WellFormed.flatten_ne (h : q.WellFormed) (hn : q.facetClauses ≠ []) :
    q.facetClauses.flatten ≠ [] := by
  have ⟨specs, hs⟩ := List.exists_mem_of_ne_nil _ hn
  intro he
  exact (h.facets specs hs).1 (List.flatten_eq_nil_iff.mp he specs hs)

theorem WellFormed.mem_names_iff {fs : Fields Facet} (h : q.WellFormed)
    (hf : fs ∈ q.document.facets) :
    name ∈ fs.entries.map (·.1) ↔
      IsDottedName name ∧ ∃ spec ∈ q.facetClauses.flatten, spec.name = name := by
  have ⟨_, hf⟩ := mem_facets_iff.mp hf
  rw [hf, Fields.mem_names_ofList, List.map_map, List.mem_map]
  exact ⟨fun ⟨spec, hs, he⟩ => ⟨he ▸ (h.facetSpec spec hs).name, spec, hs, he⟩, (·.2)⟩

theorem WellFormed.isProper (h : q.WellFormed) : ∀ s ∈ q.document.queryStrings, s.IsProper := by
  have proper {f : Fragment} (hf : f.WellFormed) :
      (QueryString.ofText (f.render .filter)).IsProper :=
    ⟨f.render_ne hf .filter, rfl⟩
  intro s hs
  simp only [Document.queryStrings, List.mem_append, or_assoc] at hs
  rcases hs with hs | hs | hs
  case inl =>
    by_cases ht : q.text.isEmpty <;> simp_all [document, QueryString.IsProper, QueryString.ofText]
  case inr.inl =>
    obtain ⟨c, hc, hs⟩ := List.mem_filterMap.mp hs
    cases List.mem_append.mp hc
    case inl hc =>
      obtain ⟨value, _, hv⟩ : ∃ value ∈ q.docType, .type value = c := by simpa using hc
      simp [← hv, Clause.query?] at hs
    case inr hc =>
      obtain ⟨spec, hn, hv⟩ := List.mem_map.mp hc
      have hs : .ofText (spec.filter.render .filter) = s := by
        simpa [← hv, Clause.query?, NestedSpec.clause] using hs
      exact hs ▸ proper (h.nested spec hn).filter
  case inr.inr =>
    obtain ⟨fs, hf, hs⟩ := List.mem_flatMap.mp hs
    obtain ⟨e, he, hs⟩ := List.mem_filterMap.mp hs
    obtain ⟨_, spec, _, hm, he, _⟩ := mem_facets_last (Option.mem_toList.mp hf) he
    have hm : spec ∈ q.facetClauses.flatten := by simp [hm]
    obtain ⟨f, hf, hs⟩ : ∃ f ∈ spec.filter, .ofText (f.render .filter) = s := by
      simpa [← he, FacetSpec.facet, Facet.ofLeaf] using hs
    exact hs ▸ proper ((h.facetSpec spec hm).filter f hf)

theorem Found.reflects (h : q.Found n cs) : q.document.Reflects q := by
  have hw := h.wellFormed
  obtain ⟨_, _, _, _, hp⟩ := h
  constructor
  case should => rfl
  case mustNot => rfl
  case must => rfl
  case types =>
    intro value hv
    have hv : value ∈ q.docType := by simpa [document, Query.must, NestedSpec.clause] using hv
    exact hw.docType value hv
  case paths =>
    intro path text hp
    obtain ⟨spec, hs, hp⟩ : ∃ spec ∈ q.nestedSpecs, spec.clause = .nested path text := by
      simpa [document, Query.must] using hp
    cases hp
    exact (hw.nested spec hs).path
  case text =>
    have ht := text_isEmpty_iff hp
    by_cases he : q.text.isEmpty <;> simp_all [document]
  case texts => exact hw.isProper
  case facets => by_cases he : q.facetClauses = [] <;> simp [document, Query.facets, he]
  case names =>
    intro fs hf
    refine ⟨fun he => ?_, fun name => hw.mem_names_iff hf⟩
    obtain ⟨spec, hs⟩ := List.exists_mem_of_ne_nil _ (hw.flatten_ne (mem_facets_iff.mp hf).1)
    have hm := (hw.mem_names_iff hf).mpr ⟨(hw.facetSpec spec hs).name, spec, hs, rfl⟩
    simp [he] at hm
  case last =>
    intro fs hf e he
    obtain ⟨front, spec, back, hs, rfl, hb⟩ := mem_facets_last hf he
    exact ⟨front, spec, back, hs, rfl, hb, (hw.facetSpec spec (by simp [hs])).counts⟩

end Query

-- A compiled document has the pieces which its query asks for, each in its place, and nothing else.
theorem compile_reflects (options : CompilerOptions) (text : String) (d : Document)
    (h : compile options text = .ok d) :
    ∃ q, (Query.parse options.maxDepth text).1 = .ok q ∧
      q.Found options.maxDepth (Query.normalize text) ∧ d.Reflects q := by
  have ⟨q, hq, hd⟩ := compile_eq_ok_iff.mp h
  exact ⟨q, Query.parse_eq_ok_iff.mpr hq, hq, hd ▸ hq.reflects⟩

theorem compile_reflects_repeated :
    let text := "type:a x facets:[g.c c] nested:[p (q)] y facets:[g.c (k:v)]"
    let d : Document := {
      must    := [.type "a", .nested "p" (.ofText "q")]
      should  := []
      mustNot := []
      text    := some (.ofText "x y")
      facets  := some (.ofList [
        ("c", ⟨none, "c_nonngram", 20, none⟩),
        ("g.c", ⟨some "g", "c_nonngram", 20, some (.ofText "k:v")⟩)
      ])
    }
    compile .default text = .ok d ∧ ∃ q, (Query.parse CompilerOptions.default.maxDepth text).1 = .ok q ∧
      q.Found CompilerOptions.default.maxDepth (Query.normalize text) ∧ d.Reflects q := by
  intro text d
  have h : compile .default text = .ok d := by decide +kernel
  exact ⟨h, compile_reflects _ _ _ h⟩

end SearchQuery
