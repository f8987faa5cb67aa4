import SearchQuery.Proofs.Collapse

namespace SearchQuery

open Text Cursor

-- The text names a type, with `r` behind the keyword. With any other operator it is a comparison.
structure NamesType (cs r : List Char) : Prop where
  keyword  : cs = Parser.typeKeyword ++ r
  operator : ∀ c ∈ r.head?, c ∉ ['>', '<', '=']

def Clause.type? : Clause → Option String
  | type value => some value
  | _          => none

-- The types which a document asks for, wherever in its filter.
def Document.types (d : Document) : List String :=
  (d.must ++ d.should ++ d.mustNot).filterMap Clause.type?

-- The same error in a text with `n` more bytes in front.
def ParseError.behind (n : Nat) (e : ParseError) : ParseError :=
  { e with offset := e.offset + n }

variable {options : CompilerOptions} {text : String} {n : Nat} {t : Option String}
variable {r u v w : List Char}

theorem Query.types_document (q : Query) : q.document.types = q.docType.toList := by
  have hn : q.nestedSpecs.filterMap (Clause.type? ∘ NestedSpec.clause) = [] := by
    simp [List.filterMap_eq_nil_iff, Clause.type?, NestedSpec.clause]
  cases hd : q.docType <;> simp [Document.types, document, Query.must, Clause.type?, hd, hn]

theorem NamesType.exists_iff {cs : List Char} :
    (∃ r, NamesType cs r) ↔ Parser.opensTypeClause cs := by
  rw [Parser.opensTypeClause_iff]
  exact exists_congr fun r => ⟨fun h => ⟨h.keyword, h.operator⟩, fun h => ⟨h.1, h.2⟩⟩

-- A type which was found is the longest run of its characters, and a blank ends it if not the text.
theorem TypeFound.run (h : TypeFound t u v) (hn : NamesType (u ++ v) r) :
    t = Option.some (String.ofList (r.takeWhile isTypeChar)) ∧ r.takeWhile isTypeChar ≠ [] ∧
      ∀ c ∈ (r.dropWhile isTypeChar).head?, isBlank c := by
  cases h
  case none ho => exact absurd (NamesType.exists_iff.mp ⟨r, hn⟩) (by simpa using ho)
  case some w d hw hc hb _ =>
    have hs : Stops isTypeChar (d ++ v) := fun c h => not_isTypeChar_of_isBlank (hb c h)
    have hr : w ++ (d ++ v) = r := by simpa using hn.keyword
    rw [← hr, takeWhile_append hc hs, dropWhile_append hc hs]
    exact ⟨rfl, hw, hb⟩

theorem TypeFound.isSome_iff (h : TypeFound t u v) : t.isSome ↔ ∃ r, NamesType (u ++ v) r := by
  rw [NamesType.exists_iff]
  cases h
  case none ho => simpa using ho
  case some hw hc _ _ => simpa using Parser.opensTypeClause_word hw hc

-- What a query comes to is decided by the text behind its type, wherever this text stands.
theorem exists_outcome_behind (n : Nat) (v : List Char) : ∃ outcome : Except ParseError (List Part),
    ∀ text {t u}, Query.normalize text = u ++ v → TypeFound t u v → compile ⟨n⟩ text =
      (outcome.map fun ps => Query.document ⟨t, ps⟩).mapError (ParseError.behind (size u)) := by
  cases (Parser.describes_parts n).decides v
  case inl h =>
    obtain ⟨ps, w, r, hv, hp, hr⟩ := h
    have hv : v = w := by simpa [hr] using hv
    refine ⟨.ok ps, fun _ _ _ hn ht => compile_eq_ok_iff.mpr ⟨⟨_, ps⟩, ?_, rfl⟩⟩
    exact ⟨_, _, hn, ht, hv ▸ hp⟩
  case inr h =>
    obtain ⟨w, x, r, hv, hf⟩ := h
    refine ⟨.error ⟨size w, x⟩, fun _ _ u hn ht => compile_eq_error_iff.mpr ?_⟩
    refine ⟨u ++ w, x, r, by simp [hn, hv], .parts (hv ▸ ht) hf, ?_⟩
    simp [ParseError.behind, Nat.add_comm]

theorem drops_and (hw : Connector.and.Spelling w) : Drops (' ' :: w) (' ' :: r) :=
  .inl ⟨[' '], w, rfl, isBlank_space, hw, by simp [isWordChar, isBlank, blankRanges]⟩

theorem drops_nothing (hr : Stops isBlank r) (hk : ∀ w, Connector.at? r ≠ some (.and, w)) :
    Drops [] (' ' :: r) := by
  refine .inr ⟨rfl, fun b t w he hb ht => ?_⟩
  have hb' : (' ' :: r).dropWhile isBlank = t := he ▸ dropWhile_append hb ht
  have hr' : (' ' :: r).dropWhile isBlank = r := dropWhile_append (u := [' ']) isBlank_space hr
  rw [← hb', hr']
  exact hk w

namespace Query.IsPlain

theorem of_not_blank (h : ∀ c ∈ text.toList, isBlank c = false) : Query.IsPlain text where
  lines hm := absurd (h _ hm) (by decide)
  trim     := by
    refine trim_eq_self_iff.mpr ⟨fun c hc => h c (List.mem_of_mem_head? hc), fun c hc => ?_⟩
    exact h c (List.mem_reverse.mp (List.mem_of_mem_head? hc))

theorem append_blank {p q : String} (hp : Query.IsPlain p) (hq : Query.IsPlain q) (np : p ≠ "")
    (nq : q ≠ "") : Query.IsPlain (p ++ " " ++ q) := by
  have ⟨hps, _⟩ := trim_eq_self_iff.mp hp.trim
  have ⟨_, hqe⟩ := trim_eq_self_iff.mp hq.trim
  refine ⟨by simp [hp.lines, hq.lines], trim_eq_self_iff.mpr ⟨?_, ?_⟩⟩
  · simpa using hps.append_right (r := ' ' :: q.toList) (by simpa using np)
  · simpa using hqe.append_right (r := ' ' :: p.toList.reverse) (by simpa using nq)

end Query.IsPlain

theorem types_of_compile {d : Document} (h : compile options text = .ok d) :
    (d.types ≠ [] ↔ ∃ r, NamesType (Query.normalize text) r) ∧
    ∀ r, NamesType (Query.normalize text) r →
      d.types = [String.ofList (r.takeWhile isTypeChar)] ∧ r.takeWhile isTypeChar ≠ [] ∧
      ∀ c ∈ (r.dropWhile isTypeChar).head?, isBlank c := by
  obtain ⟨q, ⟨u, v, he, ht, _⟩, rfl⟩ := compile_eq_ok_iff.mp h
  rw [he, q.types_document]
  refine ⟨?_, fun r hr => ?_⟩
  · rw [← ht.isSome_iff]
    cases q.docType <;> simp
  · obtain ⟨hd, hn, hb⟩ := ht.run hr
    exact ⟨by simp [hd], hn, hb⟩

theorem isPlain_type {w : String} (hw : ∀ c ∈ w.toList, isTypeChar c) :
    Query.IsPlain ("type:" ++ w) :=
  .of_not_blank fun c hc => by
    cases List.mem_append.mp (String.toList_append ▸ hc)
    case inl hc => exact Parser.typeKeyword_not_blank c hc
    case inr hc => exact not_isBlank_of_isTypeChar (hw c hc)

-- Both texts go on with a blank and `q`, and their types are found in front of it.
theorem compile_drops_and {w a q : String} (nw : w ≠ "") (hw : ∀ c ∈ w.toList, isTypeChar c)
    (ha : Connector.and.Spelling a.toList) (nq : q ≠ "") (hq : Query.IsPlain q)
    (hk : ∀ v, Connector.at? q.toList ≠ some (.and, v)) :
    compile options ("type:" ++ w ++ " " ++ a ++ " " ++ q) =
      (compile options ("type:" ++ w ++ " " ++ q)).mapError (ParseError.behind 4) := by
  have ⟨hqs, _⟩ := trim_eq_self_iff.mp hq.trim
  have ⟨outcome, ho⟩ := exists_outcome_behind options.maxDepth (' ' :: q.toList)
  have na : a ≠ "" := by simpa using ha.ne_nil
  have hpw := isPlain_type hw
  have hpwa := hpw.append_blank (.of_not_blank ha.not_blank) (by simp) na
  have hwith := ho ("type:" ++ w ++ " " ++ a ++ " " ++ q)
    (by simp [(hpwa.append_blank hq (by simp) nq).normalize, Parser.typeKeyword])
    (.some (by simpa using nw) hw (by simp [isBlank, blankRanges]) (drops_and ha))
  have hwithout := ho ("type:" ++ w ++ " " ++ q)
    (by simp [(hpw.append_blank hq (by simp) nq).normalize, Parser.typeKeyword])
    (.some (by simpa using nw) hw (by simp [isBlank, blankRanges]) (drops_nothing hqs hk))
  rw [hwith, hwithout]
  cases outcome
  case ok => rfl
  case error e =>
    have hs : ' '.utf8Size = 1 := rfl
    have hl : size a.toList = 3 := ha.size_eq
    simp [Except.map, Except.mapError, ParseError.behind, hs, hl]
    omega

-- A document asks for a type exactly if its query names one, and then for the whole of it. An
-- `AND` behind the type is as good as not written.
theorem compile_type (options : CompilerOptions) :
    (∀ text d, compile options text = .ok d →
      (d.types ≠ [] ↔ ∃ r, NamesType (Query.normalize text) r) ∧
      ∀ r, NamesType (Query.normalize text) r →
        d.types = [String.ofList (r.takeWhile isTypeChar)] ∧ r.takeWhile isTypeChar ≠ [] ∧
        ∀ c ∈ (r.dropWhile isTypeChar).head?, isBlank c) ∧
    ∀ w a q : String, w ≠ "" → (∀ c ∈ w.toList, isTypeChar c) → Connector.and.Spelling a.toList →
      q ≠ "" → Query.IsPlain q → (∀ v, Connector.at? q.toList ≠ some (.and, v)) →
      compile options ("type:" ++ w ++ " " ++ a ++ " " ++ q) =
        (compile options ("type:" ++ w ++ " " ++ q)).mapError (ParseError.behind 4) := by
  constructor
  case left =>
    intro text d h
    exact types_of_compile h
  case right =>
    intro w a q nw hw ha nq hq hk
    exact compile_drops_and nw hw ha nq hq hk

theorem compile_type_unclosed :
    let d := { Document.empty with must := [.type "a-1"], text := some (.ofText "x") }
    compile .default "type:a-1 x" = .ok d ∧ d.types = ["a-1"] ∧
    compile .default ("type:" ++ "a-1" ++ " " ++ "or (b") = .error ⟨14, .closingParen⟩ ∧
    compile .default ("type:" ++ "a-1" ++ " " ++ "aNd" ++ " " ++ "or (b") =
      .error ⟨18, .closingParen⟩ := by
  intro d
  have hd : compile .default "type:a-1 x" = .ok d := by decide +kernel
  have ht := ((compile_type .default).1 _ d hd).2 "a-1 x".toList ⟨by decide +kernel, by simp⟩
  have he : compile .default ("type:" ++ "a-1" ++ " " ++ "or (b") = .error ⟨14, .closingParen⟩ := by
    decide +kernel
  have hs : Connector.and.Spelling "aNd".toList := by cbv
  have hk : Connector.at? "or (b".toList = some (.or, ['o', 'r']) := by decide +kernel
  have hw : ∀ c ∈ "a-1".toList, isTypeChar c := by
    simp [isTypeChar, Char.isAlphanum, Char.isAlpha, Char.isLower, Char.isDigit]
  have ha := (compile_type .default).2 "a-1" "aNd" "or (b" (by decide) hw hs
    (by decide) (by decide +kernel) (fun v => by rw [hk]; simp)
  exact ⟨hd, ht.1, he, ha.trans (he ▸ rfl)⟩

end SearchQuery
