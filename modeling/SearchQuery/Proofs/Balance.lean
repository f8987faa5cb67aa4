import SearchQuery.Proofs.Composition

namespace SearchQuery

open Text Cursor

namespace Text

-- The characters of a text which keep their meaning, when a backslash makes the next one literal.
-- There is no telling if the text ends with such a backslash.
def unescaped? : List Char → Option (List Char)
  | []              => some []
  | ['\\']          => none
  | '\\' :: _ :: cs => unescaped? cs
  | c :: cs         => (unescaped? cs).map (c :: ·)

-- Parentheses come in pairs, and at most `depth` of them are open at the same time.
structure Balanced (depth : Nat) (s : List Char) : Prop where
  opened : ∀ p, p <+: s → p.count ')' ≤ p.count '('
  nested : ∀ p, p <+: s → p.count '(' ≤ p.count ')' + depth
  closed : s.count '(' = s.count ')'

-- Quotes come in pairs, and no parenthesis stands between an opening quote and the closing one.
structure Phrased (s : List Char) : Prop where
  even    : Even (s.count '"')
  outside : ∀ p c, p ++ [c] <+: s → c = '(' ∨ c = ')' → Even (p.count '"')

variable {c : Char} {d : Nat} {a b p s t u v : List Char}

theorem unescaped?_cons (hc : c ≠ '\\') : unescaped? (c :: s) = (unescaped? s).map (c :: ·) := by
  rw [unescaped?]
  · exact fun h _ => hc h
  · exact fun _ _ h => absurd h hc

theorem unescaped?_append (h : unescaped? u = some a) :
    unescaped? (u ++ v) = (unescaped? v).map (a ++ ·) := by
  fun_induction unescaped? u generalizing a
  case case1 => simp_all
  case case2 => simp at h
  case case3 hi => simp [unescaped?, hi h]
  case case4 c cs h₁ h₂ hi =>
    have ⟨b, hb, ha⟩ := Option.map_eq_some_iff.mp h
    have hc : c ≠ '\\' := by
      intro hc
      cases cs
      case nil => exact h₁ hc rfl
      case cons => exact h₂ _ _ hc rfl
    simp [unescaped?_cons hc, hi hb, ← ha]
    rfl

theorem unescaped?_eq_self (h : '\\' ∉ u) : unescaped? u = some u := by
  induction u
  case nil => rfl
  case cons c u hi =>
    simp at h
    simp [unescaped?_cons (Ne.symm h.1), hi h.2]

theorem sublist_of_unescaped? (h : unescaped? u = some a) : a.Sublist u := by
  fun_induction unescaped? u generalizing a
  case case1 => simp_all
  case case2 => simp at h
  case case3 hi => exact ((hi h).cons _).cons _
  case case4 hi =>
    have ⟨b, hb, ha⟩ := Option.map_eq_some_iff.mp h
    exact ha ▸ (hi hb).cons_cons _

-- Only a backslash at the end can leave an escape open.
theorem unescaped?_isSome (h : u.getLast? ≠ some '\\') : (unescaped? u).isSome := by
  fun_induction unescaped? u
  case case1 => rfl
  case case2 => simp at h
  case case3 cs hi =>
    refine hi ?_
    cases cs <;> simp_all
  case case4 c cs _ _ hi =>
    have hl : cs.getLast? ≠ some '\\' := by
      cases cs <;> simp_all
    simpa using hi hl

theorem prefix_append_iff : p <+: s ++ t ↔ p <+: s ∨ ∃ q, q <+: t ∧ p = s ++ q := by
  constructor
  case mp =>
    intro h
    apply (List.prefix_or_prefix_of_prefix h (List.prefix_append s t)).imp_right
    intro ⟨q, hq⟩
    subst hq
    exact ⟨q, (List.prefix_append_right_inj s).mp h, rfl⟩
  case mpr =>
    intro h
    cases h
    case inl h => exact h.trans (List.prefix_append s t)
    case inr h =>
      have ⟨q, hq, hp⟩ := h
      exact hp ▸ (List.prefix_append_right_inj s).mpr hq

namespace Balanced

theorem of_not_mem (ho : '(' ∉ s) (hc : ')' ∉ s) : Balanced d s where
  opened p hp := by simp [List.count_eq_zero_of_not_mem fun h => hc (hp.subset h)]
  nested p hp := by simp [List.count_eq_zero_of_not_mem fun h => ho (hp.subset h)]
  closed      := by simp [List.count_eq_zero_of_not_mem ho, List.count_eq_zero_of_not_mem hc]

theorem mono (h : Balanced d s) (hd : d ≤ e) : Balanced e s where
  opened      := h.opened
  nested p hp := by
    have := h.nested p hp
    omega
  closed      := h.closed

theorem append (hs : Balanced d s) (ht : Balanced d t) : Balanced d (s ++ t) where
  opened p hp := by
    cases prefix_append_iff.mp hp
    case inl hp => exact hs.opened p hp
    case inr hp =>
      have ⟨q, hq, hp⟩ := hp
      have := hs.closed
      have := ht.opened q hq
      simp [hp]
      omega
  nested p hp := by
    cases prefix_append_iff.mp hp
    case inl hp => exact hs.nested p hp
    case inr hp =>
      have ⟨q, hq, hp⟩ := hp
      have := hs.closed
      have := ht.nested q hq
      simp [hp]
      omega
  closed := by simp [hs.closed, ht.closed]

-- A prefix of what stands in parentheses has the opening one, and the closing one only at the end.
theorem count_enclosed (hp : p <+: '(' :: (s ++ [')'])) :
    p = [] ∨ ∃ q, q <+: s ∧ p.count '(' = q.count '(' + 1 ∧
      (p.count ')' = q.count ')' ∨ q = s ∧ p.count ')' = q.count ')' + 1) := by
  cases List.prefix_cons_iff.mp hp
  case inl h => exact .inl h
  case inr h =>
    have ⟨t, hp, ht⟩ := h
    subst hp
    cases List.prefix_concat_iff.mp ht
    case inl ht => exact .inr ⟨s, List.prefix_rfl, by simp [ht], .inr ⟨rfl, by simp [ht]⟩⟩
    case inr ht => exact .inr ⟨t, ht, by simp, .inl (by simp)⟩

theorem enclose (h : Balanced d s) : Balanced (d + 1) ('(' :: (s ++ [')'])) where
  opened p hp := by
    cases count_enclosed hp
    case inl hp => simp [hp]
    case inr hp =>
      have ⟨q, hq, ho, hc⟩ := hp
      have := h.opened q hq
      omega
  nested p hp := by
    cases count_enclosed hp
    case inl hp => simp [hp]
    case inr hp =>
      have ⟨q, hq, ho, hc⟩ := hp
      have := h.nested q hq
      omega
  closed := by simp [h.closed]

end Balanced

namespace Phrased

theorem of_not_mem (h : '"' ∉ s) : Phrased s where
  even            := by simp [List.count_eq_zero_of_not_mem h]
  outside p c hp _ := by
    have hq : '"' ∉ p := fun hq => h (hp.subset (by simp [hq]))
    simp [List.count_eq_zero_of_not_mem hq]

theorem append (hs : Phrased s) (ht : Phrased t) : Phrased (s ++ t) where
  even            := by simpa using hs.even.add ht.even
  outside p c hp hc := by
    cases prefix_append_iff.mp hp
    case inl hp => exact hs.outside p c hp hc
    case inr hp =>
      have ⟨q, hq, hp⟩ := hp
      cases List.eq_nil_or_concat q
      case inl h => exact hs.outside p c (by simp [hp, h]) hc
      case inr h =>
        have ⟨r, e, hr⟩ := h
        simp [hr, ← List.append_assoc] at hp hq
        have h := ht.outside r e hq (hp.2 ▸ hc)
        simpa [hp.1] using hs.even.add h

theorem phrase (hq : '"' ∉ s) (ho : '(' ∉ s) (hc : ')' ∉ s) : Phrased ('"' :: (s ++ ['"'])) where
  even := by simp [List.count_eq_zero_of_not_mem hq]
  outside p c hp h := by
    have hm := hp.subset (List.mem_append_right p (List.mem_singleton_self c))
    rcases h with rfl | rfl <;> simp_all

theorem enclose (h : Phrased s) : Phrased ('(' :: (s ++ [')'])) :=
  (of_not_mem (s := ['(']) (by simp)).append <| h.append <| of_not_mem (by simp)

end Phrased

-- A reader of the text finds at most `depth` nested groups in it, and if `quoted` holds then each
-- phrase ends where it was meant to.
def Legible (depth : Nat) (quoted : Prop) (t : List Char) : Prop :=
  ∃ s, unescaped? t = some s ∧ Balanced depth s ∧ (quoted → Phrased s)

namespace Legible

variable {p q : Prop}

theorem nil : Legible d p [] :=
  ⟨[], rfl, .of_not_mem (by simp) (by simp), fun _ => .of_not_mem (by simp)⟩

theorem mono (h : Legible d p t) (hd : d ≤ e) (hq : q → p) : Legible e q t := by
  have ⟨s, hs, hb, hp⟩ := h
  exact ⟨s, hs, hb.mono hd, fun h => hp (hq h)⟩

theorem append (hs : Legible d p s) (ht : Legible d p t) : Legible d p (s ++ t) := by
  have ⟨a, ha, hab, hap⟩ := hs
  have ⟨b, hb, hbb, hbp⟩ := ht
  refine ⟨a ++ b, by simp [unescaped?_append ha, hb], hab.append hbb, ?_⟩
  exact fun h => (hap h).append (hbp h)

theorem enclose (h : Legible d p t) : Legible (d + 1) p ('(' :: (t ++ [')'])) := by
  have ⟨s, hs, hb, hp⟩ := h
  exact ⟨'(' :: (s ++ [')']), by simp [unescaped?_cons, unescaped?_append hs, unescaped?],
    hb.enclose, fun h => (hp h).enclose⟩

-- A text in which nothing is escaped, neither quotes nor parentheses nor backslashes.
theorem of_not_mem (hs : unescaped? t = some s) (ho : '(' ∉ s) (hc : ')' ∉ s) (hq : p → '"' ∉ s) :
    Legible d p t :=
  ⟨s, hs, .of_not_mem ho hc, fun h => .of_not_mem (hq h)⟩

theorem phrase (ht : unescaped? t = some s) (hq : '"' ∉ s) (ho : '(' ∉ s) (hc : ')' ∉ s) :
    Legible d p ('"' :: (t ++ ['"'])) :=
  ⟨'"' :: (s ++ ['"']), by simp [unescaped?_cons, unescaped?_append ht, unescaped?],
    .of_not_mem (by simpa using ho) (by simpa using hc), fun _ => .phrase hq ho hc⟩

end Legible

end Text

open Text

variable {d : Nat} {p : Prop}

namespace Escaping

variable {cs : List Char}

-- What is left unescaped needs no escape.
theorem unescaped?_encode (e : Escaping) (cs : List Char) :
    ∃ s, unescaped? (e.encode cs) = some s ∧ ∀ c ∈ s, c ∈ cs ∧ e.escapes c = false := by
  have hpair : e.escapes '&' = false ∧ e.escapes '|' = false := by simp [escapes, isReserved]
  fun_induction encode e cs
  case case1 => exact ⟨[], rfl, by simp⟩
  case case2 hi =>
    obtain ⟨s, hs, h⟩ := hi
    exact ⟨'&' :: s, by simp [unescaped?, hs], by simp [hpair]; grind⟩
  case case3 hi =>
    obtain ⟨s, hs, h⟩ := hi
    exact ⟨'|' :: s, by simp [unescaped?, hs], by simp [hpair]; grind⟩
  case case4 hi =>
    obtain ⟨s, hs, h⟩ := hi
    exact ⟨s, by simp [unescaped?, hs], by grind⟩
  case case5 c cs _ _ hc hi =>
    obtain ⟨s, hs, h⟩ := hi
    have hc' : c ≠ '\\' := by
      intro he
      cases e <;> simp [he, escapes, isReserved, keeps] at hc
    exact ⟨c :: s, by simp [unescaped?_cons hc', hs], by grind⟩

theorem legible_value (cs : List Char) : ∃ s, unescaped? (value.encode cs) = some s ∧
    '"' ∉ s ∧ '(' ∉ s ∧ ')' ∉ s := by
  have ⟨s, hs, h⟩ := value.unescaped?_encode cs
  refine ⟨s, hs, ?_, ?_, ?_⟩
  all_goals
    intro hc
    have := (h _ hc).2
    simp [escapes, isReserved, keeps] at this

theorem legible_freeWord (h : IsFreeWord cs) : Legible d p (freeText.encode cs) := by
  have ⟨s, hs, he⟩ := freeText.unescaped?_encode cs
  have hw (c : Char) (hc : c ∈ s) : isWordChar c := h.chars c (he c hc).1
  refine .of_not_mem hs ?_ ?_ fun _ hq => ?_
  · intro ho
    simpa [isWordChar] using hw _ ho
  · intro hc
    simpa [isWordChar] using hw _ hc
  · have := (he _ hq).2
    simp [escapes, isReserved, keeps] at this

end Escaping

-- A backslash at the end of a key only takes the colon of the operator with it.
theorem legible_key {key : List Char} {op : Operator} (hk : IsWord isKeyChar key) :
    Legible d ('"' ∉ key) (key ++ op.chars) := by
  have hl : (key ++ op.chars).getLast? ≠ some '\\' := by
    cases op <;> simp [Operator.chars]
  obtain ⟨s, hs⟩ := Option.isSome_iff_exists.mp (unescaped?_isSome hl)
  have hm {c : Char} (hc : c ∈ s) (h : c ∈ ['(', ')', '"']) : c ∈ key := by
    cases List.mem_append.mp ((sublist_of_unescaped? hs).subset hc)
    case inl hc => exact hc
    case inr hc =>
      have ho : ∀ c ∈ op.chars, c ∉ ['(', ')', '"'] := by cases op <;> simp [Operator.chars]
      exact absurd h (ho c hc)
  refine .of_not_mem hs ?_ ?_ fun hq h => hq (hm h (by simp))
  all_goals
    intro h
    simpa [isKeyChar] using hk.chars _ (hm h (by simp))

theorem Junction.legible_text (j : Junction) : Legible d p j.text.toList := by
  have hj : ∀ c ∈ j.text.toList, c ∉ ['\\', '(', ')', '"'] := by
    match j with
    | adjacent       => simp [text]
    | touching       => simp [text]
    | connector .and => simp [text, Connector.text, Connector.chars]
    | connector .or  => simp [text, Connector.text, Connector.chars]
  refine .of_not_mem (unescaped?_eq_self fun h => ?_) (fun h => ?_) (fun h => ?_) fun _ h => ?_
  all_goals exact absurd (hj _ h) (by simp)

mutual

-- The keys which are compared, at any depth.
@[simp]
def Item.keys : Item → List String
  | .compare key _ value => key :: value.keys
  | .free _              => []
  | .group inner         => inner.keys

@[simp]
def Operand.keys : Operand → List String
  | .atom _      => []
  | .group inner => inner.keys

@[simp]
def Fragment.keys : Fragment → List String
  | .single item      => item.keys
  | .join item _ rest => item.keys ++ rest.keys

end

-- No key has a quote in it. Keys are not escaped, so it would be taken for one of a phrase.
def Unquoted (keys : List String) : Prop :=
  ∀ key ∈ keys, '"' ∉ key.toList

theorem unquoted_cons {k : String} {l : List String} :
    Unquoted (k :: l) ↔ '"' ∉ k.toList ∧ Unquoted l := by
  simp [Unquoted]

theorem unquoted_append {k l : List String} : Unquoted (k ++ l) ↔ Unquoted k ∧ Unquoted l := by
  simp [Unquoted, or_imp, forall_and]

mutual

theorem Item.legible_render (i : Item) (h : i.WellFormed) :
    Legible i.nesting (Unquoted i.keys) (i.render .query).toList := by
  match i with
  | .compare key op v =>
    have ⟨hk, hv⟩ := h
    have hk : Legible v.nesting (Unquoted (key :: v.keys)) (key.toList ++ op.chars) :=
      (legible_key hk).mono le_rfl fun h => (unquoted_cons.mp h).1
    have hv : Legible v.nesting (Unquoted (key :: v.keys)) (v.render .query).toList :=
      (v.legible_render hv).mono le_rfl fun h => (unquoted_cons.mp h).2
    simpa [Item.render, Operator.text] using hk.append hv
  | .free (.word text) =>
    simpa [Item.render, Target.freeWord] using Escaping.legible_freeWord h
  | .free (.phrase _ text) =>
    have ⟨s, hs, hq, ho, hc⟩ := Escaping.legible_value text.toList
    simpa [Item.render, Target.phrase] using Legible.phrase hs hq ho hc
  | .group inner =>
    simpa [Item.render] using (inner.legible_render h).enclose

theorem Operand.legible_render {op : Operator} (o : Operand) (h : o.WellFormed op) :
    Legible o.nesting (Unquoted o.keys) (o.render .query).toList := by
  match o with
  | .atom (.word text) =>
    have ⟨s, hs, hq, ho, hc⟩ := Escaping.legible_value text.toList
    simpa [Operand.render, Target.value] using Legible.of_not_mem hs ho hc fun _ => hq
  | .atom (.phrase _ text) =>
    have ⟨s, hs, hq, ho, hc⟩ := Escaping.legible_value text.toList
    simpa [Operand.render, Target.phrase] using Legible.phrase hs hq ho hc
  | .group inner =>
    simpa [Operand.render] using (inner.legible_render h).enclose

theorem Fragment.legible_render (f : Fragment) (h : f.WellFormed) :
    Legible f.nesting (Unquoted f.keys) (f.render .query).toList := by
  match f with
  | .single i => exact i.legible_render h
  | .join i j rest =>
    have ⟨hi, _, hr⟩ := h
    have hi := (i.legible_render hi).mono (Nat.le_max_left _ rest.nesting) fun h =>
      (unquoted_append (l := rest.keys).mp h).1
    have hr := (rest.legible_render hr).mono (Nat.le_max_right i.nesting _) fun h =>
      (unquoted_append (k := i.keys).mp h).2
    simpa [Fragment.render] using hi.append <| j.legible_text.append hr

end

theorem PartsFound.legible (h : PartsFound n ps u) : ∀ f ∈ ps.filterMap Part.fragment?,
    Legible n (Unquoted f.keys) (f.render .query).toList := by
  induction h
  case nil => simp
  case cons hp _ hi =>
    cases hp
    case text f _ hf =>
      intro g hg
      cases List.mem_cons.mp hg
      case inl hg => exact hg ▸ (f.legible_render hf.wellFormed).mono hf.nesting id
      case inr hg => exact hi g hg
    all_goals exact hi

theorem legible_intercalate {ts : List String} (h : ∀ t ∈ ts, Legible n p t.toList) :
    Legible n p (" ".intercalate ts).toList := by
  match ts with
  | []           => exact .nil
  | [t]          => simpa using h t (by simp)
  | t :: s :: ts =>
    have ht := h t (by simp)
    have hs := legible_intercalate fun u (hu : u ∈ s :: ts) => h u (by simp [hu])
    have hb : Legible n p " ".toList := Junction.adjacent.legible_text
    simpa using ht.append (hb.append hs)

theorem Query.Found.legible {q : Query} (h : q.Found n u) :
    Legible n (∀ f ∈ q.fragments, Unquoted f.keys) q.text.toList := by
  have ⟨_, _, _, _, hp⟩ := h
  refine legible_intercalate fun t ht => ?_
  have ⟨f, hf, ht⟩ := List.mem_map.mp ht
  exact ht ▸ (hp.legible f hf).mono le_rfl fun h => h f hf

-- The free text of a document can be read by anyone who takes a backslash and the character behind
-- it as one: no escape is left open, and groups nest no deeper than in the query. Phrases are told
-- from what is around them too, as long as no key brings a quote of its own.
theorem compile_freeText_legible (options : CompilerOptions) (text t : String) (d : Document)
    (hd : compile options text = .ok d) (ht : d.freeText = some t) :
    ∃ q s, (Query.parse options.maxDepth text).1 = .ok q ∧ unescaped? t.toList = some s ∧
      Balanced options.maxDepth s ∧ ((∀ f ∈ q.fragments, Unquoted f.keys) → Phrased s) := by
  obtain ⟨q, hf, hq⟩ := compile_eq_ok_iff.mp hd
  subst hq
  have ht : q.text = t := by
    simp only [Document.freeText, Query.document] at ht
    split at ht <;> simp_all [QueryString.ofText]
  obtain ⟨s, hs, hb, hp⟩ := hf.legible
  exact ⟨q, s, Query.parse_eq_ok_iff.mpr hf, ht ▸ hs, hb, hp⟩

theorem compile_freeText_legible_escapes : ∃ q s,
    (Query.parse 32 "k\\:(a \"(b\") c\\").1 = .ok q ∧
    unescaped? "k\\:(a \"\\(b\") c\\\\".toList = some s ∧ Balanced 32 s ∧
    ((∀ f ∈ q.fragments, Unquoted f.keys) → Phrased s) := by
  have h : compile .default "k\\:(a \"(b\") c\\" = .ok { Document.empty with
      text := some (.ofText "k\\:(a \"\\(b\") c\\\\") } := by
    decide +kernel
  exact compile_freeText_legible _ _ _ _ h rfl

end SearchQuery
