import SearchQuery.Parser

namespace SearchQuery

-- Where a sequence stands, which decides what ends it.
inductive Scope
  | query -- also ends before a bracketed clause
  | group
  deriving DecidableEq, Repr

def Scope.endsAt (scope : Scope) (c : Cursor) : Bool :=
  match c.peek with
  | none | some ')' => true
  | some _          => scope = .query && (Bracket.at? c.rest).isSome

namespace Parser

-- Reads a phrase. If its closing quote is missing then only the opening one is consumed.
def phrase : Parser Atom := do
  let c ← here
  expect ['"'] .value
  match phraseBody? (← here).rest with
  | some (body, text) =>
    let literal := '"' :: (body ++ ['"'])
    modify fun s => { s with cursor := c.after literal }
    return .phrase (String.ofList literal) (String.ofList text)
  | none =>
    throw ⟨c.offset + Text.size c.rest, .closingQuote⟩

theorem phrase_advances : phrase.Advances := by
  intro s _ _ h
  obtain ⟨_, _, ⟨⟩, h⟩ := bind_eq_ok.mp h
  obtain ⟨_, _, he, h⟩ := bind_eq_ok.mp h
  obtain ⟨_, _, ⟨⟩, h⟩ := bind_eq_ok.mp h
  obtain ⟨⟨t, ht⟩, rfl⟩ := expect_eq_ok.mp he
  rcases hb : phraseBody? (s.cursor.after ['"']).rest with _ | ⟨body, text⟩
  case none => simp only [hb] at h; cases h
  case some =>
    simp only [hb] at h
    cases h
    apply Cursor.lt_after _ (by simp)
    simpa [Cursor.after, ← ht] using prefix_of_phraseBody? hb

-- Reads an unquoted word, for which a value is expected.
def bareWord : Parser Atom := do
  let c ← here
  match ← take? Cursor.word? with
  | some word => return .word word
  | none      => throw ⟨c.offset, .value⟩

theorem bareWord_advances : bareWord.Advances :=
  here_forward.bind_advances fun _ =>
    take?_bind_advances Cursor.lt_of_span? .throw fun _ => .pure

-- Reads the right-hand side of a comparison.
def operand (group : Parser Fragment) : Parser Operand := do
  let c ← here
  match c.peek with
  | some '"' => .atom <$> phrase
  | some '(' => .group <$> group
  | some _   => .atom <$> bareWord
  | none     => throw ⟨c.offset, .value⟩

theorem operand_advances {group : Parser Fragment} (h : group.Advances) :
    (operand group).Advances := by
  refine here_forward.bind_advances fun _ => ?_
  split
  · exact phrase_advances.map
  · exact h.map
  · exact bareWord_advances.map
  · exact .throw

-- A word which starts with `:` has no key, and one without an operator is no comparison.
def item (group : Parser Fragment) : Parser Item := do
  let c ← here
  match c.peek with
  | none | some ')' => throw ⟨c.offset, .expression⟩
  | some '('        => .group <$> group
  | some '"'        => .free <$> phrase
  | some _ =>
    match ← take? Cursor.key? with
    | none     => .free <$> bareWord
    | some key =>
      match ← take? Cursor.operator? with
      | none    => return .free (.word key)
      | some op => .compare key op <$> operand group

theorem item_advances {group : Parser Fragment} (h : group.Advances) :
    (item group).Advances := by
  refine here_forward.bind_advances fun _ => ?_
  split
  · exact .throw
  · exact .throw
  · exact h.map
  · exact phrase_advances.map
  · refine take?_bind_advances Cursor.lt_of_span? bareWord_advances.map fun _ => ?_
    refine Forward.bind (take?_forward fun h => Cursor.le_of_lt (Cursor.lt_of_operator? h)) ?_
    rintro (_ | _)
    · exact .pure
    · exact (operand_advances h).forward.map

def items (group : Advancing Fragment) : Advancing Item where
  run      := item group.run
  advances := item_advances group.advances

-- Reads what joins an item to the next one, which has to be there. Blanks were skipped before.
def junction (scope : Scope) (spaced : Bool) : Parser Junction := do
  match ← take? Cursor.connector? with
  | none => return if spaced then .adjacent else .touching
  | some k =>
    skipBlank
    let c ← here
    if scope.endsAt c then throw ⟨c.offset, .expression⟩ else return .connector k

theorem junction_forward : (junction scope spaced).Forward := by
  refine Forward.bind (take?_forward fun h => Cursor.le_of_lt (Cursor.lt_of_connector? h)) ?_
  rintro (_ | _)
  case none => exact .pure
  case some =>
    refine skipBlank_forward.bind fun _ => here_forward.bind fun _ => ?_
    split
    case isTrue  => exact Advances.throw.forward
    case isFalse => exact .pure

-- Reads what joins an item to the next one, or nothing if the sequence ends.
def junction? (scope : Scope) : Parser (Option Junction) := do
  let spaced := (← here).atBlank
  skipBlank
  if scope.endsAt (← here) then
    return none
  else
    let j ← junction scope spaced
    note <| .junction j (← here).offset
    return some j

theorem junction?_forward : (junction? scope).Forward := by
  refine here_forward.bind fun _ => skipBlank_forward.bind fun _ => here_forward.bind fun _ => ?_
  split
  case isTrue  => exact .pure
  case isFalse =>
    exact junction_forward.bind fun _ => here_forward.bind fun _ => note_forward.bind fun _ => .pure

-- Reads items until the sequence ends.
def sequence (item : Advancing Item) (scope : Scope) : Parser Fragment := fun s =>
  match _hi : item.run s with
  | .error e s₁  => .error e s₁
  | .ok first s₁ =>
    match _hj : junction? scope s₁ with
    | .error e s₂     => .error e s₂
    | .ok none s₂     => .ok (.single first) s₂
    | .ok (some j) s₂ =>
      match sequence item scope s₂ with
      | .error e s₃ => .error e s₃
      | .ok rest s₃ => .ok (.join first j rest) s₃
termination_by s => s.cursor.rest.length
decreasing_by
  exact Cursor.length_lt_of_lt <|
    Cursor.lt_of_lt_of_le (item.advances _hi) (junction?_forward _hj)

theorem sequence_advances (item : Advancing Item) : (sequence item scope).Advances := by
  intro s f s'
  fun_induction sequence item scope s generalizing f s' <;> intro h <;> cases h
  case case3 hi _ hj =>
    exact Cursor.lt_of_lt_of_le (item.advances hi) (junction?_forward hj)
  case case5 hi _ _ hj _ _ hs ih =>
    exact Cursor.lt_of_lt_of_le (item.advances hi) <|
      Cursor.le_trans (junction?_forward hj) (Cursor.le_of_lt (ih hs))

-- Reads what stands between parentheses.
def enclosed (inside : Parser Fragment) : Parser Fragment := do
  expect ['('] .openParen
  enter
  skipBlank
  let f ← inside
  skipBlank
  expect [')'] .closingParen
  leave
  return f

theorem enclosed_advances (h : inside.Forward) : (enclosed inside).Advances :=
  (expect_advances (by simp)).bind_forward fun _ => enter_forward.bind fun _ =>
    skipBlank_forward.bind fun _ => h.bind fun _ => skipBlank_forward.bind fun _ =>
      (expect_advances (by simp)).forward.bind fun _ => leave_forward.bind fun _ => .pure

-- Reads a group, which together with the groups inside of it may open `levels` levels of nesting.
def group : (levels : Nat) → Advancing Fragment
  | 0 => {
    run      := refuseLevel '(' .openParen
    advances := refuseLevel_advances
  }
  | levels + 1 => {
    run      := fun s => enclosed (sequence (items (group levels)) .group) s
    advances := enclosed_advances (sequence_advances _).forward
  }

end Parser

end SearchQuery
