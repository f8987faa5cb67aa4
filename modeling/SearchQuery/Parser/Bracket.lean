import SearchQuery.Parser.Fragment

namespace SearchQuery

-- A facet which is asked for. If its name is dotted then the last segment is the leaf.
structure FacetSpec where
  name   : String
  path   : Option String
  leaf   : String
  filter : Option Fragment
  deriving DecidableEq, Repr

-- Splits off what stands behind the last dot of a name.
def splitLeaf (name : List Char) : Option (List Char) × List Char :=
  match name.reverse.dropWhile (· ≠ '.') with
  | []        => (none, name)
  | _ :: path => (some path.reverse, (name.reverse.takeWhile (· ≠ '.')).reverse)

def FacetSpec.ofName (name : String) (filter : Option Fragment) : FacetSpec where
  name
  path := (splitLeaf name.toList).1.map String.ofList
  leaf := String.ofList (splitLeaf name.toList).2
  filter

structure NestedSpec where
  path   : String
  filter : Fragment
  deriving DecidableEq, Repr

namespace Parser

-- No segment between the dots of a name is empty.
def isDotted (name : List Char) : Bool :=
  go true name
where
  go (empty : Bool) : List Char → Bool
    | []      => !empty
    | c :: cs => if c = '.' then !empty && go true cs else go false cs

-- Reads the name of a facet or the path of a nested clause.
def facetName : Parser String := do
  let c ← here
  match ← take? Cursor.name? with
  | none      => throw ⟨c.offset, .facetName⟩
  | some name => if isDotted name.toList then return name else throw ⟨c.offset, .facetName⟩

theorem facetName_advances : facetName.Advances := by
  refine here_forward.bind_advances fun _ =>
    take?_bind_advances Cursor.lt_of_span? .throw fun _ => ?_
  dsimp only
  split
  case isTrue  => exact .pure
  case isFalse => exact Advances.throw.forward

-- Blanks between a name and its filter are skipped, but those behind a name without filter are not.
def filter? (group : Parser Fragment) : Parser (Option Fragment) := do
  if (← here).skipBlank.peek = some '(' then
    skipBlank
    some <$> group
  else
    return none

theorem filter?_forward {group : Parser Fragment} (h : group.Forward) :
    (filter? group).Forward := by
  refine here_forward.bind fun _ => ?_
  split
  case isTrue  => exact skipBlank_forward.bind fun _ => h.map
  case isFalse => exact .pure

def facet (group : Advancing Fragment) : Advancing FacetSpec where
  run := do
    let name ← facetName
    let filter ← filter? group.run
    note <| .facet name filter.isSome
    return .ofName name filter
  advances :=
    facetName_advances.bind_forward fun _ => (filter?_forward group.advances.forward).bind fun _ =>
      note_forward.bind fun _ => .pure

def nested (group : Advancing Fragment) : Advancing NestedSpec where
  run := do
    let path ← facetName
    skipBlank
    let filter ← group.run
    note <| .nestedFilter path
    return { path, filter }
  advances :=
    facetName_advances.bind_forward fun _ => skipBlank_forward.bind fun _ =>
      group.advances.forward.bind fun _ => note_forward.bind fun _ => .pure

-- Consumes what separates an entry from the next one. Tells if it is the closing bracket.
def separator : Parser Bool := do
  skipBlank
  let _ ← eat [',']
  skipBlank
  eat [']']

theorem separator_forward : separator.Forward :=
  skipBlank_forward.bind fun _ => eat_forward.bind fun _ => skipBlank_forward.bind fun _ =>
    eat_forward

-- Reads entries until the closing bracket. There has to be at least one.
def entries (entry : Advancing α) : Parser (List α) := fun s =>
  if s.cursor.atEnd then
    .error ⟨s.cursor.offset, .closingBracket⟩ s
  else
    match _he : entry.run s with
    | .error e s₁  => .error e s₁
    | .ok first s₁ =>
      match _hs : separator s₁ with
      | .error e s₂  => .error e s₂
      | .ok true s₂  => .ok [first] s₂
      | .ok false s₂ =>
        match entries entry s₂ with
        | .error e s₃ => .error e s₃
        | .ok rest s₃ => .ok (first :: rest) s₃
termination_by s => s.cursor.rest.length
decreasing_by
  exact Cursor.length_lt_of_lt <| Cursor.lt_of_lt_of_le (entry.advances _he) (separator_forward _hs)

theorem entries_advances (entry : Advancing α) : (entries entry).Advances := by
  intro s xs s'
  fun_induction entries entry s generalizing xs s' <;> intro h <;> cases h
  case case4 he _ hs =>
    exact Cursor.lt_of_lt_of_le (entry.advances he) (separator_forward hs)
  case case6 he _ hs _ _ hx ih =>
    exact Cursor.lt_of_lt_of_le (entry.advances he) <|
      Cursor.le_trans (separator_forward hs) (Cursor.le_of_lt (ih hx))

-- Reads the keyword of a clause, and the blanks up to the bracket which has to follow.
def keyword (b : Bracket) : Parser Unit := do
  expect b.keyword .expression
  skipBlank

theorem keyword_advances (b : Bracket) : (keyword b).Advances :=
  (expect_advances b.keyword_ne_nil).bind_forward fun _ => skipBlank_forward

-- Reads a clause, which may open `levels` levels of nesting, its own bracket included.
def clause (b : Bracket) (entry : Advancing Fragment → Advancing α) : Nat → Advancing (List α)
  | 0 => {
    run := do
      keyword b
      refuseLevel '[' .openBracket
    advances := (keyword_advances b).bind_forward fun _ => refuseLevel_advances.forward
  }
  | levels + 1 => {
    run := do
      keyword b
      expect ['['] .openBracket
      enter
      skipBlank
      let xs ← entries (entry (group levels))
      leave
      return xs
    advances :=
      (keyword_advances b).bind_forward fun _ => (expect_advances (by simp)).forward.bind fun _ =>
        enter_forward.bind fun _ => skipBlank_forward.bind fun _ =>
          (entries_advances _).forward.bind fun _ => leave_forward.bind fun _ => .pure
  }

def facetsClause (levels : Nat) : Advancing (List FacetSpec) :=
  clause .facets facet levels

def nestedClause (levels : Nat) : Advancing (List NestedSpec) :=
  clause .nested nested levels

end Parser

end SearchQuery
