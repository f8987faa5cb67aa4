import SearchQuery.Proofs.Parts

namespace SearchQuery

open Text Cursor

-- Complete entries, and what separates them from the next one, stand in the text before `r`.
inductive Listed (Found : α → List Char → List Char → Prop) : List Char → List Char → Prop
  | nil :
    Listed Found [] r
  | snoc :
    Listed Found v (u ++ (s ++ r)) → Found a u (s ++ r) → Separates s r →
    Listed Found (v ++ (u ++ s)) r

namespace Expected

-- The text ends with the key and the operator of a comparison.
def BehindOperator (u : List Char) : Prop :=
  ∃ v w, ∃ op : Operator, u = v ++ (w ++ op.chars) ∧ IsWord isKeyChar w

-- The text ends within a nested clause, with a path and the blanks behind it.
def BehindPath (u r : List Char) : Prop :=
  ∃ n v b₁ b₂ es w b,
    u = v ++ (Bracket.nested.keyword ++ (b₁ ++ '[' :: (b₂ ++ (es ++ (w ++ b))))) ∧
    IsBlank b₁ ∧ IsBlank b₂ ∧ Listed (NestedSpec.Found n) es (w ++ (b ++ r)) ∧ IsName w ∧
    IsBlank b ∧ Stops isBlank r

-- The places between `u` and `r` at which `x` can be missing. An opening bracket never is, since a
-- keyword in front of anything else opens no clause.
def Located (x : Expected) (u r : List Char) : Prop :=
  match x with
  | closingQuote | closingParen | closingBracket => r = []
  | endOfInput       => r.head? = some ')'
  | shallowerNesting => r.head? = some '(' ∨ r.head? = some '['
  | value            => (∀ c ∈ r.head?, isBlank c ∨ c = ')') ∧ BehindOperator u
  | expression       => (∀ c ∈ r.head?, c = ')') ∨ ∃ b : Bracket, b.opens r
  | openParen        => r.head? ≠ some '(' ∧ BehindPath u r
  | facetName        =>
    (∃ c ∈ r.head?, isNameChar c = false) ∨
    ∃ w t, r = w ++ t ∧ w ≠ [] ∧ (∀ c ∈ w, isNameChar c) ∧ Stops isNameChar t ∧ [] ∈ w.splitOn '.'
  | typeValue        =>
    ∃ w, u = Parser.typeKeyword ++ w ∧ (∀ c ∈ w, isTypeChar c) ∧
      (w = [] → ∀ c ∈ r.head?, isTypeChar c = false) ∧
      (w ≠ [] → ∃ c ∈ r.head?, isTypeChar c = false ∧ isBlank c = false)
  | openBracket      => False

end Expected

open Expected

variable {n : Nat} {x : Expected} {p r s t u v w : List Char}

-- The first segment may only be empty if something stands in front of it.
theorem Parser.isDotted_go_iff (empty : Bool) (h : w.splitOn '.' = s :: ss) :
    isDotted.go empty w ↔ (empty → s ≠ []) ∧ [] ∉ ss := by
  induction w generalizing empty s ss
  case nil =>
    simp [List.splitOn_eq_splitOnP] at h
    simp [isDotted.go, h]
  case cons c w hi =>
    obtain ⟨t, ts, hw⟩ := List.exists_cons_of_ne_nil (List.splitOn_ne_nil '.' w)
    rw [List.splitOn_eq_splitOnP, List.splitOnP_cons_eq_if_modifyHead, ← List.splitOn_eq_splitOnP,
      hw] at h
    by_cases hc : c = '.'
    case pos =>
      simp [hc] at h
      cases empty <;> simp [isDotted.go, hc, hi true hw, ← h, eq_comm]
    case neg =>
      simp [hc] at h
      simp [isDotted.go, hc, hi false hw, ← h]

theorem Parser.isDotted_iff : isDotted w ↔ [] ∉ w.splitOn '.' := by
  have ⟨s, ss, hw⟩ := List.exists_cons_of_ne_nil (List.splitOn_ne_nil '.' w)
  simp [isDotted, isDotted_go_iff true hw, hw, eq_comm]

-- What an element of the category relies on, behind `p` and in front of `cs`.
def Category.Ready (p cs : List Char) : Category → Prop
  | operand _  => BehindOperator p
  | item       => Stops isBlank cs
  | group      => cs.head? = some '('
  | sequence _ => Stops isBlank cs

theorem Fails.located (h : Fails n c u x r) (hc : c.Ready p (u ++ r)) : x.Located (p ++ u) r := by
  induction h generalizing p
  case operandMissing h => exact ⟨h, (List.append_nil p).symm ▸ hc⟩
  case operandPhrase => rfl
  case operandGroup h _ hi => exact hi h
  case itemMissing h => exact .inl h
  case itemBlank h => simp [Category.Ready, h] at hc
  case itemPhrase => rfl
  case itemGroup h _ hi => exact hi h
  case itemValue w _ _ _ _ op hw _ _ hi =>
    have h := hi (p := p ++ (w ++ op.chars)) ⟨p, w, op, rfl, hw⟩
    simpa using h
  case groupOpen h => exact absurd hc h
  case groupDeep => exact .inl rfl
  case groupInside b _ _ _ _ _ hs _ hi =>
    have h := hi (p := p ++ '(' :: b) hs
    simpa using h
  case groupUnclosed => rfl
  case sequenceFirst hi => exact hi hc
  case sequenceEnd he => exact he.imp_right fun ⟨_, h⟩ => h
  case sequenceNext u m v r _ _ _ _ _ hj _ hi =>
    have h := hi (p := p ++ (u ++ m)) hj.1.stops
    simpa using h

-- A group is missing its parenthesis only where no other one can be told.
theorem Fails.eq_openParen (h : Fails n .group u x r) (ho : (u ++ r).head? ≠ some '(') :
    u = [] ∧ x = .openParen := by
  cases h
  case groupOpen => exact ⟨rfl, rfl⟩
  all_goals simp at ho

theorem located_name (hw : ∀ c ∈ w, isNameChar c) (hd : ¬Parser.isDotted w)
    (hr : Stops isNameChar r) (hn : w ++ r ≠ []) : Located .facetName u (w ++ r) := by
  by_cases h : w = []
  case pos =>
    subst h
    have ⟨c, t, hc⟩ := List.exists_cons_of_ne_nil hn
    have hc : c ∈ r.head? := by simpa using congrArg List.head? hc
    exact .inl ⟨c, hc, hr c hc⟩
  case neg =>
    have hd : [] ∈ w.splitOn '.' := by simpa [Parser.isDotted_iff] using hd
    exact .inr ⟨w, r, rfl, h, hw, hr, hd⟩

theorem FacetSpec.Fails.located (h : FacetSpec.Fails n u x r) (hn : u ++ r ≠ []) :
    x.Located (p ++ u) r := by
  cases h
  case name hw hd hr => exact located_name hw hd hr hn
  case filter w b u _ _ ho hf =>
    have h := hf.located (p := p ++ (w ++ b)) ho
    simpa using h

theorem NestedSpec.Fails.located (h : NestedSpec.Fails n u x r) (hn : u ++ r ≠ [])
    (hp : ∀ w b, IsName w → IsBlank b → Stops isBlank r → u = w ++ b →
      BehindPath (p ++ (w ++ b)) r) :
    x.Located (p ++ u) r := by
  cases h
  case name hw hd hr => exact located_name hw hd hr hn
  case filter w b u hw hb hs _ hf =>
    by_cases ho : (u ++ r).head? = some '('
    case pos =>
      have h := hf.located (p := p ++ (w ++ b)) ho
      simpa using h
    case neg =>
      have ⟨hu, hx⟩ := hf.eq_openParen ho
      subst hu hx
      exact ⟨by simpa using ho, by simpa using hp w b hw hb hs (by simp)⟩

section

variable {α : Type} {Found : α → List Char → List Char → Prop}
variable {Fails : List Char → Expected → List Char → Prop}

-- An entry fails behind those which were read before it.
theorem EntriesFails.exists_listed (h : EntriesFails Found Fails u x r)
    (hv : Listed Found v (u ++ r)) : (x = .closingBracket ∧ r = []) ∨
      ∃ es w, v ++ u = es ++ w ∧ Listed Found es (w ++ r) ∧ w ++ r ≠ [] ∧ Fails w x r := by
  induction h generalizing v
  case unclosed => exact .inl ⟨rfl, rfl⟩
  case first u r x hn hf => exact .inr ⟨v, u, rfl, hv, hn, hf⟩
  case next a u s w r x ha hs _ _ hi =>
    have h := hi (v := v ++ (u ++ s)) (.snoc (by simpa using hv) ha hs)
    simpa using h

end

-- Nothing but the entries of a clause can fail behind its bracket.
theorem ClauseFails.located {Found : Nat → α → List Char → List Char → Prop}
    {Fails : Nat → List Char → Expected → List Char → Prop} {br : Bracket}
    (h : ClauseFails Found Fails br n u x r)
    (hf : ∀ {n b₁ b₂ es w}, IsBlank b₁ → IsBlank b₂ → Listed (Found n) es (w ++ r) → w ++ r ≠ [] →
      Fails n w x r → x.Located (p ++ (br.keyword ++ (b₁ ++ '[' :: (b₂ ++ es))) ++ w) r) :
    x.Located (p ++ u) r := by
  cases h
  case deep => exact .inr rfl
  case inside b₁ b₂ u n hb₁ hb₂ _ he =>
    cases he.exists_listed .nil
    case inl h =>
      have ⟨hx, hr⟩ := h
      exact hx ▸ hr
    case inr h =>
      have ⟨es, w, hu, hes, hn, hw⟩ := h
      have h := hf hb₁ hb₂ hes hn hw
      have hu : u = es ++ w := hu
      simpa [hu] using h

theorem Part.Fails.located (h : Part.Fails n u x r) (hs : Stops isBlank (u ++ r)) :
    x.Located (p ++ u) r := by
  cases h
  case facets h => exact h.located fun _ _ _ hn hf => hf.located hn
  case nested h =>
    refine h.located fun {n b₁ b₂ es w} hb₁ hb₂ hes hn hf => hf.located hn ?_
    intro w b hw hb hs hu
    exact ⟨n, p, b₁, b₂, es, w, b, by simp, hb₁, hb₂, by simpa [hu] using hes, hw, hb, hs⟩
  case parenthesis => rfl
  case text h => exact h.located hs

theorem PartsFails.located (h : PartsFails n u x r) : x.Located (p ++ u) r := by
  induction h generalizing p
  case first b _ _ _ _ hs _ hf =>
    have h := hf.located (p := p ++ b) hs
    simpa using h
  case next b _ u _ _ _ _ _ _ hi =>
    have h := hi (p := p ++ (b ++ u))
    simpa using h

theorem TypeFails.located (h : TypeFails u x r) : x.Located u r := by
  cases h
  case missing hr => exact ⟨[], by simp, by simp, fun _ => hr, nofun⟩
  case malformed w c r hn hw hc hb =>
    exact ⟨w, rfl, hw, fun h => absurd h hn, fun _ => by simpa using ⟨hc, hb⟩⟩

theorem Query.Fails.located (h : Query.Fails n u x r) : x.Located u r := by
  cases h
  case type h => exact h.located
  case parts h => exact h.located

-- An error lies between two characters of the normalized query, and there at a place which fits
-- what it says is missing.
theorem compile_error_located (options : CompilerOptions) (text : String) (e : ParseError)
    (h : compile options text = .error e) :
    e.offset ≤ size (Query.normalize text) ∧
    ∃ u r, Query.normalize text = u ++ r ∧ e.offset = size u ∧ e.expected.Located u r := by
  have ⟨u, x, r, hu, hf, he⟩ := compile_eq_error_iff.mp h
  subst he
  exact ⟨by simp [hu], u, r, hu, rfl, hf.located⟩

theorem compile_error_located_path :
    compile .default "k:1 nested:[a.b x" = .error ⟨16, .openParen⟩ ∧
    (16 ≤ size (Query.normalize "k:1 nested:[a.b x") ∧
    ∃ u r, Query.normalize "k:1 nested:[a.b x" = u ++ r ∧ 16 = size u ∧ Located .openParen u r) := by
  have h : compile .default "k:1 nested:[a.b x" = .error ⟨16, .openParen⟩ := by decide +kernel
  exact ⟨h, compile_error_located _ _ _ h⟩

end SearchQuery
