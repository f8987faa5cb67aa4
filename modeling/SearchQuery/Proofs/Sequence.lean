import SearchQuery.Proofs.Grammar
import SearchQuery.Proofs.Outcome

namespace SearchQuery

open Text Cursor

theorem phraseBody?_cons (hq : c ≠ '"') (hs : c ≠ '\\') :
    phraseBody? (c :: cs) = (phraseBody? cs).map fun (body, text) => (c :: body, c :: text) := by
  rw [phraseBody?]
  · exact hq
  · exact fun _ _ hc => absurd hc hs

-- A backslash which closes nothing leaves the phrase open.
theorem ne_backslash (h : ∀ d ds, c = '\\' → cs = d :: ds → False) (hs : phraseBody? cs = some x) :
    c ≠ '\\' := by
  intro hc
  cases cs
  case nil => simp [phraseBody?] at hs
  case cons => exact h _ _ hc rfl

theorem phraseBody?_append (h : phraseBody? cs = some x) : phraseBody? (cs ++ r) = some x := by
  fun_induction phraseBody? cs generalizing x
  case case1 => simp at h
  case case2 => simpa [phraseBody?] using h
  case case3 hi =>
    have ⟨y, hy, hx⟩ := Option.map_eq_some_iff.mp h
    simp [phraseBody?, hi hy, ← hx]
  case case4 c cs hq he hi =>
    have ⟨y, hy, hx⟩ := Option.map_eq_some_iff.mp h
    have hs := ne_backslash he hy
    simp [phraseBody?_cons hq hs, hi hy, ← hx]

-- The inside of a phrase tells what it is, whatever follows the phrase.
theorem phraseBody?_body (h : phraseBody? cs = some (body, text)) :
    phraseBody? (body ++ ['"']) = some (body, text) := by
  fun_induction phraseBody? cs generalizing body text
  case case1 => simp at h
  case case2 =>
    simp at h
    simp [h, phraseBody?]
  case case3 hi =>
    have ⟨⟨b, t⟩, hy, hx⟩ := Option.map_eq_some_iff.mp h
    cases hx
    simp [phraseBody?, hi hy]
  case case4 c cs hq he hi =>
    have ⟨⟨b, t⟩, hy, hx⟩ := Option.map_eq_some_iff.mp h
    cases hx
    have hs := ne_backslash he hy
    simp [phraseBody?_cons hq hs, hi hy]

namespace Parser

variable {n : Nat} {scope : Scope} {k : Connector} {op : Operator} {b r u v w : List Char}

theorem accepts_phrase (h : IsPhrase u t) :
    Accepts phrase u (.phrase (String.ofList u) (String.ofList t)) r := by
  intro s hs
  have ⟨body, hu, ht⟩ := h
  subst hu
  have hb : phraseBody? (body ++ ['"'] ++ r) = some (body, t) := phraseBody?_append ht
  refine ⟨{ s with cursor := s.cursor.after ('"' :: (body ++ ['"'])) }, ?_, .after (by simp [hs])⟩
  simp only [List.append_assoc, List.singleton_append] at hb
  simp [phrase, expect, eat?, Cursor.after, hs, hb]

theorem rejects_phrase (h : phraseBody? u = none) :
    Rejects phrase ('"' :: u) .closingQuote [] := by
  intro s hs
  refine ⟨{ s with cursor := s.cursor.after ['"'] }, ?_⟩
  simp [phrase, expect, eat?, Cursor.after, hs, h]

theorem accepts_bareWord (hu : ∀ c ∈ u, isWordChar c) (n : u ≠ []) (hr : Stops isWordChar r) :
    Accepts bareWord u (.word (String.ofList u)) r :=
  .of_here fun _ _ => (accepts_span? rfl hu n hr).bind_nil .pure

theorem rejects_bareWord (hr : Stops isWordChar r) : Rejects bareWord [] .value r := by
  intro s hs
  have hn : Accepts (take? word?) [] none r := accepts_span?_none rfl hr
  have ⟨s', h, _⟩ := hn s hs
  exact ⟨s', by simp [bareWord, h]⟩

theorem atBlank_eq {c : Cursor} (hc : c.rest = b ++ r) (hb : IsBlank b) (hr : Stops isBlank r) :
    c.atBlank = !b.isEmpty := by
  unfold Cursor.atBlank Cursor.peek
  rw [hc]
  cases b
  case nil => cases r <;> simp_all
  case cons d b => simp [hb d]

theorem accepts_junction_none (h : Connector.at? r = none) :
    Accepts (junction scope spaced) [] (if spaced then .adjacent else .touching) r :=
  .bind_nil (accepts_connector?_none h) .pure

theorem accepts_junction_connector (hw : k.Spelling w) (hb : IsBlank b)
    (hs : Stops isWordChar (b ++ r)) (hr : Stops isBlank r) (he : ¬scope.Ends r) :
    Accepts (junction scope spaced) (w ++ b) (.connector k) r := by
  refine (accepts_connector? hw hs).bind <| (accepts_skipBlank hb hr).bind_nil <|
    .of_here fun c hc => ?_
  rw [if_neg]
  · exact .pure
  · rw [Scope.endsAt_iff, hc]
    exact he

theorem rejects_junction_connector (hw : k.Spelling w) (hb : IsBlank b)
    (hs : Stops isWordChar (b ++ r)) (hr : Stops isBlank r) (he : scope.Ends r) :
    Rejects (junction scope spaced) (w ++ b) .expression r := by
  refine .bind (accepts_connector? hw hs) ?_
  refine Rejects.bind_nil (accepts_skipBlank hb hr) <| .of_here_throw fun c hc => ?_
  rw [if_pos]
  rw [Scope.endsAt_iff, hc]
  exact he

theorem accepts_junction?_none (hb : IsBlank b) (hr : Stops isBlank r) (he : scope.Ends r) :
    Accepts (junction? scope) b none r := by
  refine .of_here fun c hc => (accepts_skipBlank hb hr).bind_nil <| .of_here fun d hd => ?_
  rw [if_pos]
  · exact .pure
  · rw [Scope.endsAt_iff, hd]
    exact he

theorem accepts_junction?_some (hb : IsBlank b) (hr : Stops isBlank (u ++ r))
    (he : ¬scope.Ends (u ++ r)) (hj : Accepts (junction scope !b.isEmpty) u j r) :
    Accepts (junction? scope) (b ++ u) (some j) r := by
  refine .of_here fun c hc => (accepts_skipBlank hb hr).bind <| .of_here fun d hd => ?_
  rw [if_neg, atBlank_eq (by simpa using hc) hb hr]
  · exact hj.bind_nil <| .of_here fun _ _ => accepts_note.bind_nil .pure
  · rw [Scope.endsAt_iff, hd]
    exact he

theorem rejects_junction? (hb : IsBlank b) (hr : Stops isBlank (u ++ r))
    (he : ¬scope.Ends (u ++ r)) (hj : Rejects (junction scope !b.isEmpty) u x r) :
    Rejects (junction? scope) (b ++ u) x r := by
  refine .of_here fun c hc => .bind (accepts_skipBlank hb hr) <| .of_here fun d hd => ?_
  rw [if_neg, atBlank_eq (by simpa using hc) hb hr]
  · exact hj.bind_left
  · rw [Scope.endsAt_iff, hd]
    exact he

variable {g : Parser Fragment}

theorem accepts_operand_word (hu : ∀ c ∈ u, isWordChar c) (n : u ≠ []) (hq : u.head? ≠ some '"')
    (hr : Stops isWordChar r) : Accepts (operand g) u (.atom (.word (String.ofList u))) r := by
  refine .of_here fun c hc => ?_
  have hw := (accepts_bareWord hu n hr).map (g := Operand.atom)
  cases u
  case nil => exact absurd rfl n
  case cons d u =>
    have hd := hu d (by simp)
    have hp : c.peek = some d := by simp [peek, hc]
    rw [hp]
    split
    · simp_all
    · simp_all [isWordChar]
    · exact hw
    · contradiction

theorem accepts_operand_phrase (h : IsPhrase u t) :
    Accepts (operand g) u (.atom (.phrase (String.ofList u) (String.ofList t))) r := by
  refine .of_here fun c hc => ?_
  have ⟨v, hu⟩ := h.head
  have hp : c.peek = some '"' := by simp [peek, hc, hu]
  rw [hp]
  exact (accepts_phrase h).map

theorem accepts_operand_group (h : (u ++ r).head? = some '(') (hg : Accepts g u f r) :
    Accepts (operand g) u (.group f) r := by
  refine .of_here fun c hc => ?_
  have hp : c.peek = some '(' := by simp only [peek, hc, h]
  rw [hp]
  exact hg.map

theorem rejects_operand_missing (h : ∀ c ∈ r.head?, isBlank c ∨ c = ')') :
    Rejects (operand g) [] .value r := by
  cases r
  case nil => exact .of_here_throw fun c hc => by simp [peek, hc]
  case cons d r =>
    simp only [List.head?_cons, Option.mem_some_iff, forall_eq'] at h
    refine .of_here fun c hc => ?_
    have hp : c.peek = some d := by simp [peek, hc]
    rw [hp]
    split
    · simp_all [isBlank, blankRanges]
    · simp_all [isBlank, blankRanges]
    · exact (rejects_bareWord (by simp [isWordChar_eq_false]; grind)).map
    · contradiction

theorem rejects_operand_phrase (h : phraseBody? u = none) :
    Rejects (operand g) ('"' :: u) .closingQuote [] := by
  refine .of_here fun c hc => ?_
  have hp : c.peek = some '"' := by simp [peek, hc]
  rw [hp]
  exact (rejects_phrase h).map

theorem rejects_operand_group (h : (u ++ r).head? = some '(') (hg : Rejects g u x r) :
    Rejects (operand g) u x r := by
  refine .of_here fun c hc => ?_
  have hp : c.peek = some '(' := by simp only [peek, hc, h]
  rw [hp]
  exact hg.map

-- Reads an item which is neither a phrase nor a group.
def keyed (g : Parser Fragment) : Parser Item := do
  match ← take? Cursor.key? with
  | none     => .free <$> bareWord
  | some key =>
    match ← take? Cursor.operator? with
    | none    => return .free (.word key)
    | some op => .compare key op <$> operand g

-- The character `c` starts a keyed item.
def StartsKeyed (c : Char) : Prop :=
  c ≠ ')' ∧ c ≠ '(' ∧ c ≠ '"'

theorem accepts_item_keyed (h : Accepts (keyed g) u i r) (hd : (u ++ r).head? = some d)
    (hs : StartsKeyed d) : Accepts (item g) u i r := by
  refine .of_here fun c hc => ?_
  have hp : c.peek = some d := by simp only [peek, hc, hd]
  have ⟨_, _, _⟩ := hs
  rw [hp]
  split <;> simp_all
  exact h

theorem rejects_item_keyed (h : Rejects (keyed g) u x r) (hd : (u ++ r).head? = some d)
    (hs : StartsKeyed d) : Rejects (item g) u x r := by
  refine .of_here fun c hc => ?_
  have hp : c.peek = some d := by simp only [peek, hc, hd]
  have ⟨_, _, _⟩ := hs
  rw [hp]
  split <;> simp_all
  exact h

theorem accepts_keyed_colon (hu : ∀ c ∈ u, isWordChar c) (n : u.head? = some ':')
    (hr : Stops isWordChar r) : Accepts (keyed g) u (.free (.word (String.ofList u))) r := by
  have hn : u ≠ [] := by cases u <;> simp_all
  refine .nil_bind (accepts_span?_none rfl ?_) ?_
  · cases u
    case nil => exact absurd rfl hn
    case cons c u => simp_all [isKeyChar]
  · exact (accepts_bareWord hu hn hr).map

theorem accepts_keyed_word (hu : ∀ c ∈ u, isKeyChar c) (n : u ≠ []) (hr : Stops isWordChar r) :
    Accepts (keyed g) u (.free (.word (String.ofList u))) r := by
  refine .bind_nil (accepts_span? rfl hu n (hr.mono fun _ => isWordChar_of_isKeyChar)) ?_
  refine .nil_bind (accepts_operator?_none ?_) .pure
  intro h
  have := hr _ h
  simp [isWordChar, isBlank, blankRanges] at this

theorem accepts_keyed_compare (hu : ∀ c ∈ u, isKeyChar c) (n : u ≠ []) (ho : op.Longest (v ++ r))
    (hv : Accepts (operand g) v value r) :
    Accepts (keyed g) (u ++ (op.chars ++ v)) (.compare (String.ofList u) op value) r := by
  refine .bind (accepts_span? rfl hu n ?_) <| .bind (accepts_operator? ho) hv.map
  have ⟨t, ht⟩ := op.chars_eq_cons
  simp [ht, isKeyChar]

theorem rejects_keyed_blank (hr : r.head?.any isBlank) : Rejects (keyed g) [] .value r := by
  have hs : Stops isWordChar r := by
    intro c hc
    simp_all [isWordChar]
  refine .nil_bind (accepts_span?_none rfl (hs.mono fun _ => isWordChar_of_isKeyChar)) ?_
  exact (rejects_bareWord hs).map

theorem rejects_keyed_compare (hu : ∀ c ∈ u, isKeyChar c) (n : u ≠ []) (ho : op.Longest (v ++ r))
    (hv : Rejects (operand g) v x r) : Rejects (keyed g) (u ++ (op.chars ++ v)) x r := by
  refine .bind (accepts_span? rfl hu n ?_) <| .bind (accepts_operator? ho) hv.map
  have ⟨t, ht⟩ := op.chars_eq_cons
  simp [ht, isKeyChar]

theorem accepts_item_phrase (h : IsPhrase u t) :
    Accepts (item g) u (.free (.phrase (String.ofList u) (String.ofList t))) r := by
  refine .of_here fun c hc => ?_
  have ⟨v, hu⟩ := h.head
  have hp : c.peek = some '"' := by simp [peek, hc, hu]
  rw [hp]
  exact (accepts_phrase h).map

theorem accepts_item_group (h : (u ++ r).head? = some '(') (hg : Accepts g u f r) :
    Accepts (item g) u (.group f) r := by
  refine .of_here fun c hc => ?_
  have hp : c.peek = some '(' := by simp only [peek, hc, h]
  rw [hp]
  exact hg.map

theorem rejects_item_missing (h : ∀ c ∈ r.head?, c = ')') : Rejects (item g) [] .expression r :=
  .of_here_throw fun c hc => by cases r <;> simp_all [peek]

theorem rejects_item_phrase (h : phraseBody? u = none) :
    Rejects (item g) ('"' :: u) .closingQuote [] := by
  refine .of_here fun c hc => ?_
  have hp : c.peek = some '"' := by simp [peek, hc]
  rw [hp]
  exact (rejects_phrase h).map

theorem rejects_item_group (h : (u ++ r).head? = some '(') (hg : Rejects g u x r) :
    Rejects (item g) u x r := by
  refine .of_here fun c hc => ?_
  have hp : c.peek = some '(' := by simp only [peek, hc, h]
  rw [hp]
  exact hg.map

theorem sequence_eq (item : Advancing Item) : sequence item scope = (do
    let first ← item.run
    match ← junction? scope with
    | none   => return .single first
    | some j => .join first j <$> sequence item scope) := by
  funext s
  rw [sequence]
  simp only [bind_apply]
  split
  case h_1 h => simp [h]
  case h_2 h =>
    simp only [h]
    split
    · simp_all
    · simp_all
    · simp only [*, map_apply]
      split <;> simp_all

variable {item : Advancing Item} {inside : Parser Fragment}

theorem accepts_sequence_single (hi : Accepts item.run u i (b ++ r))
    (hj : Accepts (junction? scope) b none r) : Accepts (sequence item scope) (u ++ b) (.single i) r := by
  rw [sequence_eq]
  exact hi.bind <| hj.bind_nil .pure

theorem accepts_sequence_join (hi : Accepts item.run u i (w ++ (v ++ r)))
    (hj : Accepts (junction? scope) w (some j) (v ++ r))
    (hs : Accepts (sequence item scope) v f r) :
    Accepts (sequence item scope) (u ++ (w ++ v)) (.join i j f) r := by
  rw [sequence_eq]
  exact .bind (by simpa using hi) <| hj.bind hs.map

theorem rejects_sequence_first (hi : Rejects item.run u x r) :
    Rejects (sequence item scope) u x r := by
  rw [sequence_eq]
  exact hi.bind_left

theorem rejects_sequence_junction (hi : Accepts item.run u i (w ++ r))
    (hj : Rejects (junction? scope) w x r) : Rejects (sequence item scope) (u ++ w) x r := by
  rw [sequence_eq]
  exact .bind hi hj.bind_left

theorem rejects_sequence_rest (hi : Accepts item.run u i (w ++ (v ++ r)))
    (hj : Accepts (junction? scope) w (some j) (v ++ r))
    (hs : Rejects (sequence item scope) v x r) :
    Rejects (sequence item scope) (u ++ (w ++ v)) x r := by
  rw [sequence_eq]
  exact .bind (by simpa using hi) <| .bind hj hs.map

theorem accepts_enclosed (hb : IsBlank b) (hs : Stops isBlank (w ++ ')' :: r))
    (h : Accepts inside w f (')' :: r)) :
    Accepts (enclosed inside) ('(' :: (b ++ (w ++ [')']))) f r := by
  refine .bind (u := ['(']) accepts_expect <| accepts_enter.nil_bind ?_
  refine .bind (accepts_skipBlank hb (by simpa using hs)) <| .bind (by simpa using h) ?_
  refine .nil_bind (accepts_skipBlank isBlank_nil (stops_cons.mpr rfl)) ?_
  exact accepts_expect.bind_nil <| accepts_leave.bind_nil .pure

theorem rejects_enclosed_open (h : r.head? ≠ some '(') :
    Rejects (enclosed inside) [] .openParen r :=
  (rejects_expect_char h).bind_left

theorem rejects_enclosed_inside (hb : IsBlank b) (hs : Stops isBlank (w ++ r))
    (h : Rejects inside w x r) : Rejects (enclosed inside) ('(' :: (b ++ w)) x r :=
  .bind (u := ['(']) accepts_expect <| .nil_bind accepts_enter <|
    .bind (accepts_skipBlank hb hs) h.bind_left

theorem rejects_enclosed_unclosed (hb : IsBlank b) (hs : Stops isBlank w)
    (h : Accepts inside w f []) : Rejects (enclosed inside) ('(' :: (b ++ w)) .closingParen [] := by
  refine .bind (u := ['(']) accepts_expect <| .nil_bind accepts_enter ?_
  refine .bind (accepts_skipBlank hb (by simpa using hs)) <| .bind_nil (by simpa using h) ?_
  exact .nil_bind (accepts_skipBlank isBlank_nil stops_nil) (rejects_expect_char (by simp)).bind_left

theorem rejects_group_open (h : r.head? ≠ some '(') : Rejects (group n).run [] .openParen r := by
  cases n
  case zero => exact rejects_refuseLevel_missing h
  case succ => exact rejects_enclosed_open h

end Parser

end SearchQuery
