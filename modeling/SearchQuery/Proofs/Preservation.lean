import SearchQuery.Proofs.Contents

namespace SearchQuery

open Cursor

-- What is remarked on is well formed.
def Note.WellFormed : Note → Prop
  | junction _ _      => True
  | typeFilter value  => IsTypeValue value
  | facet name _      => IsDottedName name
  | nestedFilter path => IsDottedName path
  | fragment f        => f.WellFormed

namespace Parser

-- A relation between states which every single action of a parser keeps, as long as it stays on its
-- level of nesting.
structure Steady (R : State → State → Prop) : Prop where
  refl    : ∀ s, R s s
  trans   : ∀ {s t u}, R s t → R t u → R s u
  moved   : ∀ s c, s.cursor ≤ c → R s { s with cursor := c }
  noted   : ∀ s n, n.WellFormed → R s { s with notes := n :: s.notes }

-- A relation which is also kept when a level is entered or left.
structure Stepwise (R : State → State → Prop) : Prop extends Steady R where
  entered : ∀ s, R s { s with depth := s.depth + 1 }
  left    : ∀ s, R s { s with depth := s.depth - 1 }

-- The state in which a parser stops.
def last (p : Parser α) (s : State) : State :=
  match p s with
  | .ok _ s' | .error _ s' => s'

def Keeps (R : State → State → Prop) (p : Parser α) : Prop :=
  ∀ s, R s (p.last s)

variable {R : State → State → Prop} {p : Parser α} {f : α → Parser β} {g : α → β}
variable {q : Parser Fragment} {scope : Scope} {s s' : State}

namespace Keeps

theorem ok (h : Keeps R p) (hp : p s = .ok a s') : R s s' := by
  simpa [last, hp] using h s

theorem error (h : Keeps R p) (hp : p s = .error e s') : R s s' := by
  simpa [last, hp] using h s

theorem map (hp : Keeps R p) : Keeps R (g <$> p) := by
  intro s
  unfold last
  rw [map_apply]
  cases h : p s
  case ok => exact hp.ok h
  case error => exact hp.error h

end Keeps

theorem isDottedName_of_facetName (h : facetName s = .ok name s') : IsDottedName name := by
  have ⟨w, r, hc, hw, hr, hn⟩ := decides_name s.cursor.rest
  cases hn
  case inl hn =>
    have ⟨he, _⟩ := (accepts_facetName hn hr).ok hc h
    exact he ▸ hn.isDottedName
  case inr hn =>
    have ⟨t, ht⟩ := rejects_facetName hw hn hr s hc
    exact nomatch h.symm.trans ht

theorem isTypeValue_of_typeWord (h : take? Cursor.typeWord? s = .ok (some value) s') :
    IsTypeValue value := by
  unfold take? at h
  split at h <;> cases h
  case h_2 hf =>
    simp only [typeWord?, span?] at hf
    split at hf <;> cases hf
    case isFalse hn =>
      refine ⟨by simpa [← String.toList_inj] using hn, fun c hc => ?_⟩
      have := List.mem_takeWhile_imp (by simpa [run] using hc)
      simpa [isTypeChar, or_assoc] using this

namespace Steady

theorem pure (hR : Steady R) : Keeps R (Pure.pure a : Parser α) :=
  hR.refl

theorem throw (hR : Steady R) : Keeps R (throw e : Parser α) :=
  hR.refl

theorem here (hR : Steady R) : Keeps R Parser.here :=
  hR.refl

-- What follows may rely on what was read.
theorem bind_of_ok (hR : Steady R) (hp : Keeps R p)
    (hf : ∀ s a s', p s = .ok a s' → Keeps R (f a)) : Keeps R (p >>= f) := by
  intro s
  unfold last
  rw [bind_apply]
  cases h : p s
  case error => exact hp.error h
  case ok => exact hR.trans (hp.ok h) (hf _ _ _ h _)

theorem bind (hR : Steady R) (hp : Keeps R p) (hf : ∀ a, Keeps R (f a)) : Keeps R (p >>= f) :=
  hR.bind_of_ok hp fun _ a _ _ => hf a

theorem note (hR : Steady R) (h : n.WellFormed) : Keeps R (Parser.note n) :=
  fun s => hR.noted s n h

theorem skipBlank (hR : Steady R) : Keeps R Parser.skipBlank :=
  fun s => hR.moved s _ le_skipBlank

theorem take? (hR : Steady R) {find : Cursor → Option (α × Cursor)}
    (h : ∀ {c a c'}, find c = some (a, c') → c < c') : Keeps R (Parser.take? find) := by
  intro s
  unfold last Parser.take?
  cases hf : find s.cursor
  case none => exact hR.refl s
  case some => exact hR.moved s _ (le_of_lt (h hf))

theorem eat (hR : Steady R) : Keeps R (Parser.eat literal) := by
  intro s
  unfold last Parser.eat
  cases h : s.cursor.eat? literal
  case none => exact hR.refl s
  case some => exact hR.moved s _ (le_of_eat? h)

theorem expect (hR : Steady R) : Keeps R (Parser.expect literal missing) := by
  intro s
  unfold last Parser.expect
  cases h : s.cursor.eat? literal
  case none => exact hR.refl s
  case some => exact hR.moved s _ (le_of_eat? h)

theorem phrase (hR : Steady R) : Keeps R Parser.phrase := by
  intro s
  unfold last
  cases he : s.cursor.eat? ['"']
  case none => simpa [Parser.phrase, Parser.expect, he] using hR.refl s
  case some c =>
    cases hb : phraseBody? c.rest
    case none => simpa [Parser.phrase, Parser.expect, he, hb] using hR.moved s c (le_of_eat? he)
    case some body =>
      have hc : s.cursor ≤ s.cursor.after ('"' :: (body.1 ++ ['"'])) := by
        obtain ⟨⟨t, ht⟩, rfl⟩ := eat?_eq_some.mp he
        apply le_after
        simpa [Cursor.after, ← ht] using prefix_of_phraseBody? hb
      simpa [Parser.phrase, Parser.expect, he, hb] using hR.moved s _ hc

theorem bareWord (hR : Steady R) : Keeps R Parser.bareWord := by
  refine hR.bind hR.here fun _ => hR.bind (hR.take? lt_of_span?) fun _ => ?_
  split
  · exact hR.pure
  · exact hR.throw

theorem junction (hR : Steady R) : Keeps R (Parser.junction scope spaced) := by
  refine hR.bind (hR.take? lt_of_connector?) fun _ => ?_
  split
  · exact hR.pure
  · refine hR.bind hR.skipBlank fun _ => hR.bind hR.here fun _ => ?_
    split
    · exact hR.throw
    · exact hR.pure

theorem junction? (hR : Steady R) : Keeps R (Parser.junction? scope) := by
  refine hR.bind hR.here fun _ => hR.bind hR.skipBlank fun _ => hR.bind hR.here fun _ => ?_
  split
  · exact hR.pure
  · exact hR.bind hR.junction fun _ => hR.bind hR.here fun _ => hR.bind (hR.note trivial) fun _ =>
      hR.pure

theorem facetName (hR : Steady R) : Keeps R Parser.facetName := by
  refine hR.bind hR.here fun _ => hR.bind (hR.take? lt_of_span?) fun _ => ?_
  split
  · exact hR.throw
  · split
    · exact hR.pure
    · exact hR.throw

theorem separator (hR : Steady R) : Keeps R Parser.separator :=
  hR.bind hR.skipBlank fun _ => hR.bind hR.eat fun _ => hR.bind hR.skipBlank fun _ => hR.eat

theorem keyword (hR : Steady R) (b : Bracket) : Keeps R (Parser.keyword b) :=
  hR.bind hR.expect fun _ => hR.skipBlank

theorem dropAnd (hR : Steady R) : Keeps R Parser.dropAnd := by
  intro s
  unfold last
  fun_cases Parser.dropAnd s
  case case1 hc =>
    exact hR.moved s _ (Cursor.le_trans le_skipBlank (Cursor.le_of_lt (lt_of_connector? hc)))
  case case2 => exact hR.refl s

theorem typeClause (hR : Steady R) : Keeps R Parser.typeClause := by
  refine hR.bind hR.here fun _ => ?_
  split
  · refine hR.bind hR.expect fun _ => hR.bind hR.here fun _ => ?_
    refine hR.bind_of_ok (hR.take? lt_of_span?) fun _ _ _ h => ?_
    split
    · exact hR.throw
    · refine hR.bind hR.here fun _ => ?_
      split
      · exact hR.bind hR.dropAnd fun _ => hR.bind (hR.note (isTypeValue_of_typeWord h)) fun _ =>
          hR.pure
      · exact hR.throw
  · exact hR.pure

end Steady

namespace Stepwise

theorem enter (hR : Stepwise R) : Keeps R Parser.enter :=
  hR.entered

theorem leave (hR : Stepwise R) : Keeps R Parser.leave :=
  hR.left

theorem refuseLevel (hR : Stepwise R) : Keeps R (Parser.refuseLevel char missing : Parser α) :=
  hR.bind hR.here fun _ => hR.bind hR.expect fun _ => hR.throw

theorem operand (hR : Stepwise R) (hq : Keeps R q) :
    Keeps R (Parser.operand q) := by
  refine hR.bind hR.here fun _ => ?_
  split
  · exact hR.phrase.map
  · exact hq.map
  · exact hR.bareWord.map
  · exact hR.throw

theorem item (hR : Stepwise R) (hq : Keeps R q) : Keeps R (Parser.item q) := by
  refine hR.bind hR.here fun _ => ?_
  split
  · exact hR.throw
  · exact hR.throw
  · exact hq.map
  · exact hR.phrase.map
  · refine hR.bind (hR.take? lt_of_span?) fun _ => ?_
    split
    · exact hR.bareWord.map
    · refine hR.bind (hR.take? lt_of_operator?) fun _ => ?_
      split
      · exact hR.pure
      · exact (hR.operand hq).map

theorem sequence (hR : Stepwise R) {item : Advancing Item} (hi : Keeps R item.run) :
    Keeps R (Parser.sequence item scope) := by
  intro s
  unfold last
  fun_induction Parser.sequence item scope s
  case case1 he       => exact hi.error he
  case case2 he _ _ hj => exact hR.trans (hi.ok he) (hR.junction?.error hj)
  case case3 he _ hj => exact hR.trans (hi.ok he) (hR.junction?.ok hj)
  case case4 he _ _ hj _ _ hs ih =>
    rw [hs] at ih
    exact hR.trans (hi.ok he) (hR.trans (hR.junction?.ok hj) ih)
  case case5 he _ _ hj _ _ hs ih =>
    rw [hs] at ih
    exact hR.trans (hi.ok he) (hR.trans (hR.junction?.ok hj) ih)

theorem enclosed (hR : Stepwise R) (hq : Keeps R q) : Keeps R (Parser.enclosed q) :=
  hR.bind hR.expect fun _ => hR.bind hR.enter fun _ => hR.bind hR.skipBlank fun _ =>
    hR.bind hq fun _ => hR.bind hR.skipBlank fun _ => hR.bind hR.expect fun _ =>
      hR.bind hR.leave fun _ => hR.pure

theorem group (hR : Stepwise R) (levels : Nat) : Keeps R (Parser.group levels).run := by
  induction levels
  case zero => exact hR.refuseLevel
  case succ levels hi => exact hR.enclosed (hR.sequence (hR.item hi))

theorem filter? (hR : Stepwise R) (hq : Keeps R q) : Keeps R (Parser.filter? q) := by
  refine hR.bind hR.here fun _ => ?_
  split
  · exact hR.bind hR.skipBlank fun _ => hq.map
  · exact hR.pure

theorem facet (hR : Stepwise R) (levels : Nat) :
    Keeps R (Parser.facet (Parser.group levels)).run :=
  hR.bind_of_ok hR.facetName fun _ _ _ h => hR.bind (hR.filter? (hR.group levels)) fun _ =>
    hR.bind (hR.note (isDottedName_of_facetName h)) fun _ => hR.pure

theorem nested (hR : Stepwise R) (levels : Nat) :
    Keeps R (Parser.nested (Parser.group levels)).run :=
  hR.bind_of_ok hR.facetName fun _ _ _ h => hR.bind hR.skipBlank fun _ =>
    hR.bind (hR.group levels) fun _ => hR.bind (hR.note (isDottedName_of_facetName h)) fun _ =>
      hR.pure

theorem entries (hR : Stepwise R) {entry : Advancing α} (he : Keeps R entry.run) :
    Keeps R (Parser.entries entry) := by
  intro s
  unfold last
  fun_induction Parser.entries entry s
  case case1 => exact hR.refl _
  case case2 he₁ => exact he.error he₁
  case case3 he₁ _ _ hs => exact hR.trans (he.ok he₁) (hR.separator.error hs)
  case case4 he₁ _ hs => exact hR.trans (he.ok he₁) (hR.separator.ok hs)
  case case5 he₁ _ hs _ _ hx ih =>
    rw [hx] at ih
    exact hR.trans (he.ok he₁) (hR.trans (hR.separator.ok hs) ih)
  case case6 he₁ _ hs _ _ hx ih =>
    rw [hx] at ih
    exact hR.trans (he.ok he₁) (hR.trans (hR.separator.ok hs) ih)

theorem clause (hR : Stepwise R) (b : Bracket) {entry : Advancing Fragment → Advancing α}
    (he : ∀ levels, Keeps R (entry (Parser.group levels)).run) (levels : Nat) :
    Keeps R (Parser.clause b entry levels).run := by
  cases levels
  case zero => exact hR.bind (hR.keyword b) fun _ => hR.refuseLevel
  case succ levels =>
    exact hR.bind (hR.keyword b) fun _ => hR.bind hR.expect fun _ => hR.bind hR.enter fun _ =>
      hR.bind hR.skipBlank fun _ => hR.bind (hR.entries (he levels)) fun _ =>
        hR.bind hR.leave fun _ => hR.pure

theorem text (hR : Stepwise R) (levels : Nat) : Keeps R (Parser.text levels) := by
  refine hR.bind hR.here fun _ => ?_
  split
  · exact hR.throw
  · refine hR.bind_of_ok (hR.sequence (hR.item (hR.group levels))) fun _ _ _ h => ?_
    have ⟨_, hf, _⟩ := (describes_sequence levels .query).of_ok h
    exact hR.bind (hR.note hf.wellFormed) fun _ => hR.pure

theorem part (hR : Stepwise R) (levels : Nat) : Keeps R (Parser.part levels) := by
  refine hR.bind hR.here fun _ => ?_
  split
  · exact (hR.clause .facets hR.facet levels).map
  · exact (hR.clause .nested hR.nested levels).map
  · exact (hR.text levels).map

theorem parts (hR : Stepwise R) (levels : Nat) : Keeps R (Parser.parts levels) := by
  intro s
  unfold last
  fun_induction Parser.parts levels s
  case case1 => exact hR.skipBlank _
  case case2 hp => exact hR.trans (hR.skipBlank _) ((hR.part levels).error hp)
  case case3 hp _ _ hx ih =>
    rw [hx] at ih
    exact hR.trans (hR.skipBlank _) (hR.trans ((hR.part levels).ok hp) ih)
  case case4 hp _ _ hx ih =>
    rw [hx] at ih
    exact hR.trans (hR.skipBlank _) (hR.trans ((hR.part levels).ok hp) ih)

theorem query (hR : Stepwise R) (levels : Nat) : Keeps R (Parser.query levels) :=
  hR.bind hR.typeClause fun _ => hR.bind (hR.parts levels) fun _ => hR.pure

end Stepwise

theorem stepwise_notes :
    Stepwise fun s s' => (∀ n ∈ s.notes, n.WellFormed) → ∀ n ∈ s'.notes, n.WellFormed where
  refl _ h        := h
  trans h₁ h₂ h   := h₂ (h₁ h)
  moved _ _ _ h   := h
  entered _ h     := h
  left _ h        := h
  noted _ _ hn h  := List.forall_mem_cons.mpr ⟨hn, h⟩

end Parser

-- Also a query which cannot be read is only remarked on where it is well formed.
theorem Query.wellFormed_notes (maxDepth : Nat) (text : String) :
    ∀ n ∈ (parse maxDepth text).2, n.WellFormed := by
  have h := Parser.stepwise_notes.query maxDepth (.start (normalize text)) (by simp [State.start])
  unfold Parser.last at h
  unfold parse
  cases hq : Parser.query maxDepth (.start (normalize text)) <;> simpa [hq] using h

end SearchQuery
