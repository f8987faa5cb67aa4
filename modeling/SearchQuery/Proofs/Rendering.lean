import SearchQuery.Proofs.Rejection

namespace SearchQuery

open Text Cursor

namespace Escaping

variable {e : Escaping} {cs : List Char} {p : Char → Bool}

-- Escaping adds nothing but backslashes.
theorem mem_encode (h : c ∈ e.encode cs) : c = '\\' ∨ c ∈ cs := by
  fun_induction encode e cs <;> grind

theorem head?_encode (e : Escaping) (cs : List Char) :
    (e.encode cs).head? = some '\\' ∨ (e.encode cs).head? = cs.head? := by
  fun_cases encode e cs <;> grind

theorem encode_ne_nil (h : cs ≠ []) : e.encode cs ≠ [] := by
  fun_cases encode e cs <;> grind

theorem encode_eq_self (h : '\\' ∉ e.encode cs) : e.encode cs = cs := by
  fun_induction encode e cs <;> grind

-- An escaped text can be put between quotes, and stands there for the text itself.
theorem phraseBody?_encode (cs : List Char) :
    phraseBody? (value.encode cs ++ ['"']) = some (value.encode cs, cs) := by
  fun_induction encode value cs
  case case1 => rfl
  case case2 cs hi => simp [phraseBody?, phraseBody?_cons, hi]
  case case3 cs hi => simp [phraseBody?, phraseBody?_cons, hi]
  case case4 c cs _ _ _ hi => simp [phraseBody?, hi]
  case case5 c cs _ _ h hi =>
    have hc : c ≠ '"' ∧ c ≠ '\\' := by
      constructor
      all_goals
        intro hc
        simp [hc, escapes, isReserved, keeps] at h
    simp [phraseBody?_cons hc.1 hc.2, hi]

end Escaping

variable {w : List Char} {e : Escaping} {op : Operator}

theorem IsWord.encode (h : IsWord isWordChar w) (e : Escaping) : IsWord isWordChar (e.encode w) where
  ne_nil := Escaping.encode_ne_nil h.ne_nil
  chars  := by
    intro c hc
    cases Escaping.mem_encode hc
    case inl hc => simp [hc, isWordChar, isBlank, blankRanges]
    case inr hc => exact h.chars c hc
  unquoted := by
    cases e.head?_encode w
    case inl hw => simp [hw]
    case inr hw => exact hw ▸ h.unquoted

-- A colon is never escaped in front, since then it would have a key.
theorem IsFreeWord.encode (h : IsFreeWord w) (hc : w.head? ≠ some ':') (e : Escaping) :
    IsFreeWord (e.encode w) where
  toIsWord := h.toIsWord.encode e
  colon    := by
    intro hm
    cases Escaping.mem_encode hm
    case inl hm => simp at hm
    case inr hm => exact absurd (h.colon hm) hc

theorem IsPhrase.encode (text : List Char) :
    IsPhrase ('"' :: (Escaping.value.encode text ++ ['"'])) text :=
  ⟨_, rfl, Escaping.phraseBody?_encode text⟩

theorem Operator.Longest.encode (h : op.Longest w) (e : Escaping) : op.Longest (e.encode w) := by
  cases e.head?_encode w
  case inl hw => exact .of_head? hw (by simp)
  case inr hw => exact h.congr hw.symm

-- Letters are not escaped, so what reads as a connector afterwards did so before.
theorem Connector.Spelling.of_encode (h : Connector.Spelling k (e.encode w)) : k.Spelling w := by
  have hb : '\\' ∉ e.encode w := by
    intro hb
    have := h.isAlpha _ hb
    simp [Char.isAlpha, Char.isUpper, Char.isLower] at this
  rwa [Escaping.encode_eq_self hb] at h

theorem Connector.spelling_chars (k : Connector) : k.Spelling k.chars := by
  cases k <;> rfl

mutual

-- Replaces the words and the phrases, and keeps everything else.
@[simp]
def Item.map (value word : String → String) (phrase : (literal text : String) → String) : Item → Item
  | .compare key op v            => .compare key op (v.map value word phrase)
  | .free (.word text)           => .free (.word (word text))
  | .free (.phrase literal text) => .free (.phrase (phrase literal text) text)
  | .group inner                 => .group (inner.map value word phrase)

@[simp]
def Operand.map (value word : String → String) (phrase : (literal text : String) → String) :
    Operand → Operand
  | .atom (.word text)           => .atom (.word (value text))
  | .atom (.phrase literal text) => .atom (.phrase (phrase literal text) text)
  | .group inner                 => .group (inner.map value word phrase)

@[simp]
def Fragment.map (value word : String → String) (phrase : (literal text : String) → String) :
    Fragment → Fragment
  | .single item      => .single (item.map value word phrase)
  | .join item j rest => .join (item.map value word phrase) j (rest.map value word phrase)

end

mutual

-- No free word starts with a colon.
@[simp]
def Item.AvoidsColons : Item → Prop
  | .compare _ _ value     => value.AvoidsColons
  | .free (.word text)     => text.toList.head? ≠ some ':'
  | .free (.phrase _ _)    => True
  | .group inner           => inner.AvoidsColons

@[simp]
def Operand.AvoidsColons : Operand → Prop
  | .atom _      => True
  | .group inner => inner.AvoidsColons

@[simp]
def Fragment.AvoidsColons : Fragment → Prop
  | .single item      => item.AvoidsColons
  | .join item _ rest => item.AvoidsColons ∧ rest.AvoidsColons

end

section

variable {value word : String → String} {phrase : String → String → String}

mutual

@[simp]
theorem Item.nesting_map : (i : Item) → (i.map value word phrase).nesting = i.nesting
  | .compare _ _ v      => v.nesting_map
  | .free (.word _)     => rfl
  | .free (.phrase _ _) => rfl
  | .group inner        => congrArg (· + 1) inner.nesting_map

@[simp]
theorem Operand.nesting_map : (o : Operand) → (o.map value word phrase).nesting = o.nesting
  | .atom (.word _)     => rfl
  | .atom (.phrase _ _) => rfl
  | .group inner        => congrArg (· + 1) inner.nesting_map

@[simp]
theorem Fragment.nesting_map : (f : Fragment) → (f.map value word phrase).nesting = f.nesting
  | .single item      => item.nesting_map
  | .join item _ rest => by simp [item.nesting_map, rest.nesting_map]

end

@[simp]
theorem Operand.isClosed_map (o : Operand) : (o.map value word phrase).isClosed = o.isClosed := by
  cases o
  case atom a => cases a <;> rfl
  case group => rfl

@[simp]
theorem Item.isClosed_map (i : Item) : (i.map value word phrase).isClosed = i.isClosed := by
  cases i
  case compare => exact Operand.isClosed_map _
  case free a => cases a <;> rfl
  case group => rfl

@[simp]
theorem Item.isGroup_map (i : Item) : (i.map value word phrase).isGroup = i.isGroup := by
  cases i
  case compare => rfl
  case free a => cases a <;> rfl
  case group => rfl

@[simp]
theorem Fragment.first_map (f : Fragment) :
    (f.map value word phrase).first = f.first.map value word phrase := by
  cases f <;> rfl

end

namespace Target

variable {text : String}

theorem isFreeWord_freeWord (t : Target) (h : IsFreeWord text.toList)
    (hc : t = .query → text.toList.head? ≠ some ':') : IsFreeWord (t.freeWord text).toList := by
  cases t
  case query => simpa [freeWord] using h.encode (hc rfl) .freeText
  case filter => exact h

theorem isPhrase_phrase (t : Target) (h : IsPhrase literal.toList text.toList) :
    IsPhrase (t.phrase literal text).toList text.toList := by
  cases t
  case query => simpa [phrase] using IsPhrase.encode text.toList
  case filter => exact h

theorem wellFormed_value (t : Target) (h : IsWord isWordChar text.toList)
    (hl : op.Longest text.toList) :
    IsWord isWordChar (t.value text).toList ∧ op.Longest (t.value text).toList := by
  cases t
  case query => simpa [value] using ⟨h.encode .value, hl.encode .value⟩
  case filter => simpa [value] using ⟨h.encode .facetValue, hl.encode .facetValue⟩

theorem spelling_freeWord (t : Target) (h : Connector.Spelling k (t.freeWord text).toList) :
    k.Spelling text.toList := by
  cases t
  case query => exact Connector.Spelling.of_encode (e := .freeText) (by simpa [freeWord] using h)
  case filter => exact h

end Target

variable {t : Target}

theorem Item.SpellsConnector.of_map {i : Item}
    (h : (i.map t.value t.freeWord t.phrase).SpellsConnector) : i.SpellsConnector := by
  cases i
  case free a =>
    cases a
    case word =>
      have ⟨k, hk⟩ := h
      exact ⟨k, t.spelling_freeWord hk⟩
    case phrase => exact h
  all_goals exact h

theorem Junction.Joins.map {left right : Item} {j : Junction} (h : j.Joins left right) :
    j.Joins (left.map t.value t.freeWord t.phrase) (right.map t.value t.freeWord t.phrase) := by
  cases j
  case adjacent => exact fun hc => h hc.of_map
  case touching => exact ⟨fun hc => h.1 hc.of_map, by simpa using h.2⟩
  case connector => trivial

theorem Junction.spells_text (left right : Item) (j : Junction) :
    j.Spells left right j.text.toList := by
  have hb := isBlank_space
  cases j
  case adjacent => exact ⟨hb, by simp [text]⟩
  case touching => rfl
  case connector k =>
    exact ⟨[' '], k.chars, [' '], by simp [text, Connector.text], hb, k.spelling_chars, hb,
      by simp, by simp⟩

mutual

theorem Item.WellFormed.map {i : Item} (h : i.WellFormed) (hc : t = .query → i.AvoidsColons) :
    (i.map t.value t.freeWord t.phrase).WellFormed :=
  match i with
  | .compare _ _ _      => ⟨h.1, h.2.map hc⟩
  | .free (.word _)     => t.isFreeWord_freeWord h hc
  | .free (.phrase _ _) => t.isPhrase_phrase h
  | .group _            => Fragment.WellFormed.map h hc

theorem Operand.WellFormed.map {op : Operator} {o : Operand} (h : o.WellFormed op)
    (hc : t = .query → o.AvoidsColons) : (o.map t.value t.freeWord t.phrase).WellFormed op :=
  match o with
  | .atom (.word _)     => t.wellFormed_value h.1 h.2
  | .atom (.phrase _ _) => t.isPhrase_phrase h
  | .group _            => Fragment.WellFormed.map h hc

theorem Fragment.WellFormed.map {f : Fragment} (h : f.WellFormed)
    (hc : t = .query → f.AvoidsColons) : (f.map t.value t.freeWord t.phrase).WellFormed :=
  match f with
  | .single _   => Item.WellFormed.map h hc
  | .join _ _ _ =>
    ⟨h.1.map fun ht => (hc ht).1, by simpa using h.2.1.map, h.2.2.map fun ht => (hc ht).2⟩

end

mutual

theorem Item.spells_render (t : Target) (i : Item) :
    (i.map t.value t.freeWord t.phrase).Spells (i.render t).toList :=
  match i with
  | .compare _ _ v      => ⟨_, by simp [Item.render, Operator.text], v.spells_render t⟩
  | .free (.word _)     => rfl
  | .free (.phrase _ _) => rfl
  | .group inner        =>
    ⟨[], _, [], by simp [Item.render], isBlank_nil, inner.spells_render t, isBlank_nil⟩

theorem Operand.spells_render (t : Target) (o : Operand) :
    (o.map t.value t.freeWord t.phrase).Spells (o.render t).toList :=
  match o with
  | .atom (.word _)     => rfl
  | .atom (.phrase _ _) => rfl
  | .group inner        =>
    ⟨[], _, [], by simp [Operand.render], isBlank_nil, inner.spells_render t, isBlank_nil⟩

theorem Fragment.spells_render (t : Target) (f : Fragment) :
    (f.map t.value t.freeWord t.phrase).Spells (f.render t).toList :=
  match f with
  | .single i      => i.spells_render t
  | .join i j rest =>
    ⟨_, _, _, by simp [Fragment.render], i.spells_render t, j.spells_text _ _, rest.spells_render t⟩

end

theorem Fragment.found_render {f : Fragment} (hf : f.WellFormed) (hn : f.nesting ≤ n)
    (hc : t = .query → f.AvoidsColons) :
    (f.map t.value t.freeWord t.phrase).Found n .group (f.render t).toList [] where
  wellFormed := hf.map hc
  avoids     := nofun
  nesting    := by simpa using hn
  spells     := ⟨_, [], by simp, f.spells_render t, isBlank_nil, .inr stops_nil⟩
  ends       := .inl nofun

namespace Parser

-- What is rendered for a filter reads as it was written, with its values escaped. In a query this
-- takes words which have no colon in front, as the backslash before it would become a key.
theorem sequence_render {levels : Nat} {scope : Scope} {s s' : State} {f : Fragment}
    (h : sequence (items (group levels)) scope s = .ok f s') :
    (∃ t, sequence (items (group levels)) .group (.start (f.render .filter).toList) =
        .ok (f.map Escaping.facetValue.apply id fun literal _ => literal) t ∧ t.cursor.rest = []) ∧
    (f.AvoidsColons → ∃ t, sequence (items (group levels)) .group
        (.start (f.render .query).toList) = .ok (f.map Escaping.value.apply Escaping.freeText.apply
          fun _ text => "\"" ++ Escaping.value.apply text ++ "\"") t ∧ t.cursor.rest = []) := by
  obtain ⟨u, hf, _⟩ := (describes_sequence levels scope).of_ok h
  have hr : ∀ t : Target, (t = .query → f.AvoidsColons) → ∃ t', sequence (items (group levels))
      .group (.start (f.render t).toList) = .ok (f.map t.value t.freeWord t.phrase) t' ∧
        t'.cursor.rest = [] := by
    intro t hc
    have ha := accepts_sequence _ (f.found_render hf.wellFormed hf.nesting hc)
    obtain ⟨t', ht, hr⟩ := ha (.start (f.render t).toList) (by simp [State.start, Cursor.start])
    refine ⟨t', ht, ?_⟩
    simpa [State.start, Cursor.start] using hr.rest
  exact ⟨hr .filter (by simp), fun hc => hr .query fun _ => hc⟩

theorem exists_eq_ok_of_run' {p : Parser α} (h : p.run' s = some a) : ∃ s', p s = .ok a s' := by
  simp only [EStateM.run', EStateM.run] at h
  split at h
  case h_1 hp =>
    cases h
    exact ⟨_, hp⟩
  case h_2 => cases h

theorem sequence_render_touching :
    let f : Fragment := .join (.compare "k" .has (.atom (.word "a-b"))) .touching <|
      .single <| .group <| .single <| .free <| .phrase "\"c\"" "c"
    (∃ t, sequence (items (group 1)) .group (.start (f.render .filter).toList) =
        .ok (f.map Escaping.facetValue.apply id fun literal _ => literal) t ∧ t.cursor.rest = []) ∧
    ∃ t, sequence (items (group 1)) .group
        (.start (f.render .query).toList) = .ok (f.map Escaping.value.apply Escaping.freeText.apply
          fun _ text => "\"" ++ Escaping.value.apply text ++ "\"") t ∧ t.cursor.rest = [] := by
  intro f
  have hs : (sequence (items (group 1)) .query).run' (.start "k:a-b( \"c\")".toList) = some f := by
    decide +kernel
  have ⟨_, hs⟩ := exists_eq_ok_of_run' hs
  have ⟨hf, hq⟩ := sequence_render hs
  exact ⟨hf, hq (by simp [f])⟩

end Parser

end SearchQuery
