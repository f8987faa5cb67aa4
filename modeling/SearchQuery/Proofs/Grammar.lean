import SearchQuery.Proofs.Lookahead

namespace SearchQuery

open Text Cursor

-- A word cannot start like a phrase.
structure IsWord (p : Char → Bool) (w : List Char) : Prop where
  ne_nil   : w ≠ []
  chars    : ∀ c ∈ w, p c
  unquoted : w.head? ≠ some '"'

-- A colon which has a key in front of it would be an operator.
structure IsFreeWord (w : List Char) : Prop extends IsWord isWordChar w where
  colon : ':' ∈ w → w.head? = some ':'

-- The phrase `literal` is read as a whole, and stands for `text`.
def IsPhrase (literal text : List Char) : Prop :=
  ∃ body, literal = '"' :: (body ++ ['"']) ∧ phraseBody? (body ++ ['"']) = some (body, text)

-- What stands between parentheses, and may have blanks around it.
def Enclosed (inside : List Char → Prop) (u : List Char) : Prop :=
  ∃ b₁ w b₂, u = '(' :: (b₁ ++ (w ++ (b₂ ++ [')']))) ∧ IsBlank b₁ ∧ inside w ∧ IsBlank b₂

namespace Atom

def literal : Atom → List Char
  | word text        => text.toList
  | phrase literal _ => literal.toList

def isPhrase : Atom → Bool
  | word _    => false
  | phrase .. => true

end Atom

-- A closed text cannot be continued by a word that touches it.
def Operand.isClosed : Operand → Bool
  | .atom a  => a.isPhrase
  | .group _ => true

def Item.isClosed : Item → Bool
  | .compare _ _ value => value.isClosed
  | .free a            => a.isPhrase
  | .group _           => true

def Item.isGroup : Item → Bool
  | .group _ => true
  | _        => false

def Item.SpellsConnector : Item → Prop
  | .free (.word text) => ∃ k : Connector, k.Spelling text.toList
  | _                  => False

-- The item has the form of a comparison, but where a clause may stand it starts one.
def Item.OpensBracket : Item → Prop
  | .compare key .has (.atom (.word text)) =>
    (∃ b : Bracket, b.keyword = key.toList ++ [':']) ∧ text.toList.head? = some '['
  | _ => False

def Fragment.first : Fragment → Item
  | .single item   => item
  | .join item _ _ => item

@[simp]
def Fragment.isClosed : Fragment → Bool
  | .single item   => item.isClosed
  | .join _ _ rest => rest.isClosed

-- The items `left` and `right` can stand side by side with `j` between them.
def Junction.Joins (left right : Item) : (j : Junction) → Prop
  | adjacent    => ¬right.SpellsConnector
  | touching    => ¬right.SpellsConnector ∧ (left.isClosed ∨ right.isGroup)
  | connector _ => True

-- A connector is a whole word, so blanks may only be left out where an item is no word.
def Junction.Spells (left right : Item) (m : List Char) : (j : Junction) → Prop
  | adjacent    => IsBlank m ∧ m ≠ []
  | touching    => m = []
  | connector k =>
    ∃ b₁ w b₂, m = b₁ ++ (w ++ b₂) ∧ IsBlank b₁ ∧ k.Spelling w ∧ IsBlank b₂ ∧
      (b₁ = [] → left.isClosed) ∧ (b₂ = [] → right.isGroup)

mutual

@[simp]
def Item.WellFormed : Item → Prop
  | .compare key op value        => IsWord isKeyChar key.toList ∧ value.WellFormed op
  | .free (.word text)           => IsFreeWord text.toList
  | .free (.phrase literal text) => IsPhrase literal.toList text.toList
  | .group inner                 => inner.WellFormed

@[simp]
def Operand.WellFormed (op : Operator) : Operand → Prop
  | .atom (.word text)           => IsWord isWordChar text.toList ∧ op.Longest text.toList
  | .atom (.phrase literal text) => IsPhrase literal.toList text.toList
  | .group inner                 => inner.WellFormed

@[simp]
def Fragment.WellFormed : Fragment → Prop
  | .single item      => item.WellFormed
  | .join item j rest => item.WellFormed ∧ j.Joins item rest.first ∧ rest.WellFormed

end

-- No item but the first one starts a clause.
def Fragment.AvoidsBrackets : Fragment → Prop
  | .single _      => True
  | .join _ _ rest => ¬rest.first.OpensBracket ∧ rest.AvoidsBrackets

mutual

-- How deep groups are nested.
@[simp]
def Item.nesting : Item → Nat
  | .compare _ _ value => value.nesting
  | .free _            => 0
  | .group inner       => inner.nesting + 1

@[simp]
def Operand.nesting : Operand → Nat
  | .atom _      => 0
  | .group inner => inner.nesting + 1

@[simp]
def Fragment.nesting : Fragment → Nat
  | .single item      => item.nesting
  | .join item _ rest => max item.nesting rest.nesting

end

mutual

-- Blanks may stand inside of the parentheses of a group, and where a junction has them.
@[simp]
def Item.Spells (u : List Char) : Item → Prop
  | .compare key op value => ∃ v, u = key.toList ++ (op.chars ++ v) ∧ value.Spells v
  | .free a               => u = a.literal
  | .group inner          => Enclosed (fun w => inner.Spells w) u

@[simp]
def Operand.Spells (u : List Char) : Operand → Prop
  | .atom a      => u = a.literal
  | .group inner => Enclosed (fun w => inner.Spells w) u

@[simp]
def Fragment.Spells (u : List Char) : Fragment → Prop
  | .single item      => item.Spells u
  | .join item j rest =>
    ∃ w m v, u = w ++ (m ++ v) ∧ item.Spells w ∧ j.Spells item rest.first m ∧ rest.Spells v

end

variable {o : Operand} {i left right : Item} {j : Junction} {f : Fragment} {scope : Scope}
variable {m t u w : List Char}

theorem IsWord.head (h : IsWord p u) : ∃ c t, u = c :: t ∧ p c ∧ c ≠ '"' := by
  have n := h.ne_nil
  have q := h.unquoted
  have a := h.chars
  cases u <;> simp_all

-- A key which no operator follows is a free word.
theorem IsWord.isFreeWord (h : IsWord isKeyChar w) : IsFreeWord w where
  ne_nil   := h.ne_nil
  chars    := fun c hc => isWordChar_of_isKeyChar (h.chars c hc)
  unquoted := h.unquoted
  colon    := by
    intro hc
    have := h.chars ':' hc
    simp [isKeyChar] at this

theorem IsWord.of_isAlpha (hn : w ≠ []) (hw : ∀ c ∈ w, c.isAlpha) : IsWord isKeyChar w where
  ne_nil   := hn
  chars    := fun c hc => isKeyChar_of_isAlpha (hw c hc)
  unquoted := by
    intro hq
    have := hw '"' (List.mem_of_mem_head? hq)
    simp [Char.isAlpha, Char.isUpper, Char.isLower] at this

theorem Enclosed.head (h : Enclosed inside u) : ∃ t, u = '(' :: t := by
  have ⟨_, _, _, h, _⟩ := h
  exact ⟨_, h⟩

theorem IsPhrase.head (h : IsPhrase u t) : ∃ t, u = '"' :: t := by
  have ⟨_, h, _⟩ := h
  exact ⟨_, h⟩

theorem Operand.Spells.head (hw : o.WellFormed op) (h : o.Spells u) :
    ∃ c t, u = c :: t ∧ isBlank c = false ∧ c ≠ ')' := by
  cases o
  case atom a =>
    simp at h
    subst h
    cases a
    case word =>
      obtain ⟨c, t, hu, hc, _⟩ := hw.1.head
      simp [isWordChar] at hc
      exact ⟨c, t, hu, by simp_all⟩
    case phrase =>
      obtain ⟨t, hp⟩ := hw.head
      exact ⟨_, t, hp, rfl, by simp⟩
  case group =>
    obtain ⟨t, ht⟩ := h.head
    exact ⟨_, t, ht, rfl, by simp⟩

theorem Operand.WellFormed.longest (hw : o.WellFormed op) (h : o.Spells u) :
    op.Longest (u ++ t) := by
  cases o
  case atom a =>
    have hu : u = a.literal := h
    cases a
    case word =>
      have ⟨c, v, hc, _⟩ := hw.1.head
      exact hw.2.congr <| by simp [hu, Atom.literal, hc]
    case phrase =>
      have ⟨v, hv⟩ := hw.head
      exact .of_head? (c := '"') (by simp [hu, Atom.literal, hv]) (by simp)
  case group =>
    have ⟨v, hv⟩ := Enclosed.head h
    exact .of_head? (c := '(') (by simp [hv]) (by simp)

-- How an item starts tells if it is a group, and never looks like the end of a sequence.
theorem Item.Spells.head (hw : i.WellFormed) (h : i.Spells u) :
    ∃ c t, u = c :: t ∧ isBlank c = false ∧ c ≠ ')' ∧ (c = '(' ↔ i.isGroup) := by
  cases i
  case compare key op value =>
    obtain ⟨v, h, _⟩ := h
    obtain ⟨c, t, hk, hc, _⟩ := hw.1.head
    simp [isKeyChar] at hc
    exact ⟨c, t ++ (op.chars ++ v), by simp [h, hk], by simp_all [isGroup]⟩
  case free atom =>
    simp at h
    subst h
    cases atom
    case word =>
      obtain ⟨c, t, hk, hc, _⟩ := hw.toIsWord.head
      simp [isWordChar] at hc
      exact ⟨c, t, hk, by simp_all [isGroup]⟩
    case phrase =>
      obtain ⟨t, hp⟩ := hw.head
      exact ⟨_, t, hp, rfl, by simp [isGroup]⟩
  case group inner =>
    obtain ⟨t, ht⟩ := h.head
    exact ⟨_, t, ht, rfl, by simp [isGroup]⟩

theorem Fragment.Spells.head (hf : f.WellFormed) (h : f.Spells u) :
    ∃ c t, u = c :: t ∧ isBlank c = false ∧ c ≠ ')' ∧ (c = '(' ↔ f.first.isGroup) := by
  cases f
  case single => exact Item.Spells.head hf h
  case join =>
    have ⟨w, m, v, hu, hw, _⟩ := h
    have ⟨c, t, hc, hs⟩ := Item.Spells.head hf.1 hw
    exact ⟨c, t ++ (m ++ v), by simp [hu, hc], hs⟩

theorem Fragment.Spells.stops (hf : f.WellFormed) (h : f.Spells u) : Stops isBlank (u ++ t) := by
  have ⟨c, v, hu, hc, _⟩ := h.head hf
  simpa [hu] using hc

-- A word before a junction ends there.
theorem Junction.Spells.stops (hj : j.Joins left right) (h : j.Spells left right m)
    (hr : right.isGroup → u.head? = some '(') : left.isClosed ∨ Stops isWordChar (m ++ u) := by
  cases j
  case adjacent => exact .inr (stops_of_isBlank h.1 h.2)
  case touching =>
    obtain ⟨_, hc⟩ := hj
    cases hc
    case inl hc => exact .inl hc
    case inr hc =>
      right
      intro c hu
      have hm : m = [] := h
      simp [hm, hr hc] at hu
      simp [← hu, isWordChar]
  case connector k =>
    obtain ⟨b₁, w, b₂, hm, hb₁, _, _, hc, _⟩ := h
    by_cases n : b₁ = []
    case pos => exact .inl (hc n)
    case neg =>
      rw [hm, List.append_assoc]
      exact .inr (stops_of_isBlank hb₁ n)

-- The text of a fragment starts with the text of its first item.
theorem Fragment.Spells.first (hf : f.WellFormed) (h : f.Spells u)
    (ht : f.isClosed ∨ Stops isWordChar t) : ∃ w t', u ++ t = w ++ t' ∧ f.first.WellFormed ∧
      f.first.Spells w ∧ (f.first.isClosed ∨ Stops isWordChar t') := by
  cases f
  case single => exact ⟨u, t, rfl, hf, h, ht⟩
  case join i j rest =>
    have ⟨w, m, v, hu, hw, hj, hr⟩ := h
    have ⟨hi, hjoin, hrest⟩ := hf
    refine ⟨w, m ++ (v ++ t), by simp [hu], hi, hw, hj.stops hjoin ?_⟩
    intro hg
    have ⟨c, v', hv, _, _, hc⟩ := hr.head hrest
    simp [hv, hc.mpr hg]

theorem Item.Spells.connector (hs : i.Spells w) (h : i.SpellsConnector)
    (ht : i.isClosed ∨ Stops isWordChar t) : Connector.at? (w ++ t) ≠ none := by
  unfold SpellsConnector at h
  split at h
  case h_1 text =>
    have ⟨k, hk⟩ := h
    have hw : w = text.toList := hs
    have ht : Stops isWordChar t := by simpa [isClosed, Atom.isPhrase] using ht
    simp [Connector.at?_eq_some_iff.mpr ⟨hw ▸ hk, t, rfl, ht⟩]
  case h_2 => contradiction

theorem Item.Spells.opens (hs : i.Spells w) (h : i.OpensBracket) :
    ∃ b : Bracket, b.opens (w ++ t) := by
  unfold OpensBracket at h
  split at h
  case h_1 key text =>
    have ⟨⟨b, hb⟩, ht⟩ := h
    have ⟨v, hw, hv⟩ := hs
    have ⟨x, hx⟩ := List.head?_eq_some_iff.mp ht
    have hv : v = text.toList := hv
    refine ⟨b, Bracket.opens_iff.mpr ⟨[], x ++ t, ?_, isBlank_nil⟩⟩
    simp [hw, hb, hv, hx, Operator.chars]
  case h_2 => contradiction

-- An item whose text starts with a word of letters is a comparison with this word as its key,
-- or is a word itself.
theorem Item.WellFormed.key_or_word (hi : i.WellFormed) (hs : i.Spells w) (he : w ++ t = z ++ r)
    (hn : z ≠ []) (ha : ∀ c ∈ z, c.isAlpha) (hr : Stops isKeyChar r) :
    (∃ key op value v, i = .compare key op value ∧ key.toList = z ∧ value.Spells v ∧
      r = op.chars ++ (v ++ t)) ∨ ∃ text, i = .free (.word text) := by
  have hstart : ∀ c v, w = c :: v → c.isAlpha := by
    intro c v hw
    cases z
    case nil => contradiction
    case cons d z =>
      simp [hw] at he
      exact he.1 ▸ ha d (by simp)
  cases i
  case compare key op value =>
    obtain ⟨v, hw, hv⟩ := hs
    obtain ⟨x, hx⟩ := op.chars_eq_cons
    have h₁ : (w ++ t).takeWhile isKeyChar = key.toList := by
      rw [hw, List.append_assoc]
      exact takeWhile_append hi.1.chars (by simp [hx, isKeyChar])
    have h₂ : (w ++ t).takeWhile isKeyChar = z := by
      rw [he]
      exact takeWhile_append (fun c h => isKeyChar_of_isAlpha (ha c h)) hr
    have hk : key.toList = z := h₁.symm.trans h₂
    rw [hw, hk, List.append_assoc] at he
    have he := List.append_cancel_left he
    exact .inl ⟨key, op, value, v, rfl, hk, hv, by simp [← he]⟩
  case free a =>
    cases a
    case word text => exact .inr ⟨text, rfl⟩
    case phrase =>
      obtain ⟨v, hv⟩ := hi.head
      have := hstart _ v (Eq.trans hs hv)
      simp [Char.isAlpha, Char.isUpper, Char.isLower] at this
  case group =>
    obtain ⟨v, hv⟩ := Enclosed.head hs
    have := hstart _ _ hv
    simp [Char.isAlpha, Char.isUpper, Char.isLower] at this

-- A word that stands free is read to its end.
theorem Item.WellFormed.takeWhile_word (hi : (Item.free (.word text)).WellFormed)
    (hs : (Item.free (.word text)).Spells w)
    (ht : (Item.free (.word text)).isClosed ∨ Stops isWordChar t) :
    (w ++ t).takeWhile isWordChar = text.toList := by
  have hw : w = text.toList := hs
  have ht : Stops isWordChar t := by simpa [isClosed, Atom.isPhrase] using ht
  rw [hw]
  exact takeWhile_append hi.chars ht

theorem Item.WellFormed.not_connector (hi : i.WellFormed) (hs : i.Spells w) (hc : ¬i.SpellsConnector)
    (ht : i.isClosed ∨ Stops isWordChar t) : Connector.at? (w ++ t) = none := by
  rw [Connector.at?_eq_none_iff]
  intro k z r he hr hz
  have hk : Stops isKeyChar r := hr.mono fun _ => isWordChar_of_isKeyChar
  cases hi.key_or_word hs he hz.ne_nil hz.isAlpha hk
  case inl h =>
    -- The key ends where the word of the connector ends, but an operator follows it.
    obtain ⟨_, op, _, v, _, _, _, hv⟩ := h
    obtain ⟨x, hx⟩ := op.chars_eq_cons
    simp [hv, hx, isWordChar, isBlank, blankRanges] at hr
  case inr h =>
    obtain ⟨text, rfl⟩ := h
    have h₁ : (w ++ t).takeWhile isWordChar = z := by
      rw [he]
      exact takeWhile_append (fun c h => isWordChar_of_isKeyChar (hz.isKeyChar c h)) hr
    exact hc ⟨k, (hi.takeWhile_word hs ht).symm.trans h₁ ▸ hz⟩

-- A value which starts with a bracket is a word.
theorem Operand.Spells.eq_word_of_bracket (hw : o.WellFormed op) (h : o.Spells ('[' :: u)) :
    ∃ text, o = .atom (.word text) ∧ text.toList = '[' :: u := by
  cases o
  case atom a =>
    have ha : '[' :: u = a.literal := h
    cases a
    case word text => exact ⟨text, rfl, ha.symm⟩
    case phrase =>
      have ⟨v, hv⟩ := hw.head
      simp [Atom.literal, hv] at ha
  case group =>
    have ⟨v, hv⟩ := Enclosed.head h
    simp at hv

theorem Item.WellFormed.not_opens (hi : i.WellFormed) (hs : i.Spells w) (hb : ¬i.OpensBracket)
    (ht : i.isClosed ∨ Stops isWordChar t) (b : Bracket) : ¬b.opens (w ++ t) := by
  intro ho
  obtain ⟨v, r, he, hv⟩ := Bracket.opens_iff.mp ho
  obtain ⟨name, hk, hn, ha⟩ := b.keyword_eq
  rw [hk, List.append_assoc, List.singleton_append] at he
  cases hi.key_or_word hs he hn ha (by simp [isKeyChar])
  case inl h =>
    obtain ⟨key, op, value, z, rfl, hkey, hz, hr⟩ := h
    obtain ⟨c, z', hz', hc, _⟩ := hz.head hi.2
    -- No blank and no bracket can be a part of the operator, so the value has the bracket.
    have hr : op.chars ++ c :: (z' ++ t) = ':' :: (v ++ '[' :: r) := by simpa [hz'] using hr.symm
    obtain ⟨ho, hc⟩ := Operator.eq_has_of_bracket hv hc hr
    obtain ⟨text, rfl, htext⟩ := Operand.Spells.eq_word_of_bracket hi.2 (hc ▸ hz' ▸ hz)
    rw [ho] at hb
    exact hb ⟨⟨b, by rw [hk, hkey]⟩, by simp [htext]⟩
  case inr h =>
    obtain ⟨text, rfl⟩ := h
    have hc : ':' ∈ text.toList := by
      rw [← hi.takeWhile_word hs ht, he, List.takeWhile_append_of_pos]
      · simp [isWordChar, isBlank, blankRanges]
      · exact fun c h => isWordChar_of_isKeyChar (isKeyChar_of_isAlpha (ha c h))
    -- The word starts with the keyword, so the colon in it is not its first character.
    obtain ⟨z, hz⟩ := List.head?_eq_some_iff.mp (hi.colon hc)
    have hw : w = ':' :: z := Eq.trans hs hz
    cases name
    case nil => contradiction
    case cons d name =>
      have hd : ':' = d := by simp [hw] at he; exact he.1
      have := hd ▸ ha d (by simp)
      simp [Char.isAlpha, Char.isUpper, Char.isLower] at this

-- Where a clause may stand, the text of a fragment starts one only through its first item.
theorem Fragment.Spells.opens_iff (h : f.Spells u) (hf : f.WellFormed)
    (ht : f.isClosed ∨ Stops isWordChar t) :
    (∃ b : Bracket, b.opens (u ++ t)) ↔ f.first.OpensBracket := by
  have ⟨w, t, he, hi, hw, hend⟩ := h.first hf ht
  rw [he]
  constructor
  case mp =>
    intro ⟨b, ho⟩
    apply Classical.not_not.mp
    intro hb
    exact hi.not_opens hw hb hend b ho
  case mpr => exact hw.opens

end SearchQuery
