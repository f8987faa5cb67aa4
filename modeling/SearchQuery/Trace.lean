import SearchQuery.Compile
import SearchQuery.Session

namespace SearchQuery

-- What is read from one place to another.
inductive Stretch
  | item | group | entry | clause | round
  deriving DecidableEq, Repr

inductive Event
  | loop                                          -- a loop is entered
  | round                                         -- a round of a loop begins
  | enter (bracket : Char) (offset : Nat)         -- a level is entered at the bracket
  | leave (bracket : Char)                        -- the level of the bracket is about to be left
  | done (what : Stretch) (start stop : Nat)      -- it has been read between the offsets
  deriving DecidableEq, Repr

-- An event, and how many levels are open at the time.
structure Mark where
  event : Event
  depth : Nat
  deriving DecidableEq, Repr

-- The latest mark comes first.
structure Tracer where
  maxDepth : Nat
  state    : State
  marks    : List Mark

-- Why there is no result.
inductive Halt
  | refused (e : ParseError)
  | exhausted -- the fuel is used up

-- A reader of queries which leaves a trace of its work. Nothing but its fuel keeps it from going round
-- or calling itself forever.
abbrev Tracing := EStateM Halt Tracer

namespace Tracing

def refuse (e : ParseError) : Tracing α :=
  throw (.refused e)

def exhausted : Tracing α :=
  throw .exhausted

-- What a parser does without loops, calls and changes of the level is a single step.
def step (p : Parser α) : Tracing α := fun t =>
  match p t.state with
  | .ok a s    => .ok a { t with state := s }
  | .error e s => .error (.refused e) { t with state := s }

def mark (e : Event) : Tracing Unit :=
  modify fun t => { t with marks := ⟨e, t.state.depth⟩ :: t.marks }

-- Leaves a mark if it succeeds.
def measured (what : Stretch) (read : Tracing α) : Tracing α := do
  let start ← step Parser.here
  let a ← read
  let stop ← step Parser.here
  mark <| .done what start.offset stop.offset
  return a

-- Goes round until a round is done for good.
def rounds (round : σ → Tracing (ForInStep σ)) : (fuel : Nat) → σ → Tracing σ
  | 0, _        => exhausted
  | fuel + 1, x => do
    let start ← step Parser.here
    mark .round
    match ← round x with
    | .done y  => return y
    | .yield y =>
      let stop ← step Parser.here
      mark <| .done .round start.offset stop.offset
      rounds round fuel y

def loop (round : σ → Tracing (ForInStep σ)) (fuel : Nat) (x : σ) : Tracing σ := do
  mark .loop
  rounds round fuel x

def enter (bracket : Char) (offset : Nat) : Tracing Unit := do
  let t ← get
  if t.maxDepth ≤ t.state.depth then
    refuse ⟨offset, .shallowerNesting⟩
  else
    step Parser.enter
    mark <| .enter bracket offset

def leave (bracket : Char) : Tracing Unit := do
  mark <| .leave bracket
  step Parser.leave

-- Reads what stands behind a bracket, one level deeper.
def bracketed (bracket : Char) (missing : Expected) (inside : Tracing α) : Tracing α := do
  let c ← step Parser.here
  step <| Parser.expect [bracket] missing
  enter bracket c.offset
  let a ← inside
  leave bracket
  return a

def operand (group : Tracing Fragment) : Tracing Operand := do
  let c ← step Parser.here
  match c.peek with
  | some '"' => .atom <$> step Parser.phrase
  | some '(' => .group <$> group
  | some _   => .atom <$> step Parser.bareWord
  | none     => refuse ⟨c.offset, .value⟩

def item (group : Tracing Fragment) : Tracing Item := measured .item do
  let c ← step Parser.here
  match c.peek with
  | none | some ')' => refuse ⟨c.offset, .expression⟩
  | some '('        => .group <$> group
  | some '"'        => .free <$> step Parser.phrase
  | some _ =>
    match ← step (Parser.take? Cursor.key?) with
    | none     => .free <$> step Parser.bareWord
    | some key =>
      match ← step (Parser.take? Cursor.operator?) with
      | none    => return .free (.word key)
      | some op => .compare key op <$> operand group

end Tracing

-- Puts a fragment behind another one.
def Fragment.joined : Fragment → Junction → Fragment → Fragment
  | single i, j, g      => join i j g
  | join i k rest, j, g => join i k (rest.joined j g)

namespace Tracing

def sequence (fuel : Nat) (item : Tracing Item) (scope : Scope) : Tracing Fragment := do
  let first ← item
  loop (round item) fuel (.single first)
where
  round (item : Tracing Item) (f : Fragment) : Tracing (ForInStep Fragment) := do
    match ← step (Parser.junction? scope) with
    | none   => return .done f
    | some j => return .yield (f.joined j (.single (← item)))

def group : (fuel : Nat) → Tracing Fragment
  | 0        => exhausted
  | fuel + 1 => measured .group <| bracketed '(' .openParen do
    step Parser.skipBlank
    let f ← sequence fuel (item (group fuel)) .group
    step Parser.skipBlank
    step <| Parser.expect [')'] .closingParen
    return f

def filter? (group : Tracing Fragment) : Tracing (Option Fragment) := do
  if (← step Parser.here).skipBlank.peek = some '(' then
    step Parser.skipBlank
    some <$> group
  else
    return none

def facet (group : Tracing Fragment) : Tracing FacetSpec := measured .entry do
  let name ← step Parser.facetName
  let filter ← filter? group
  step <| Parser.note <| .facet name filter.isSome
  return .ofName name filter

def nested (group : Tracing Fragment) : Tracing NestedSpec := measured .entry do
  let path ← step Parser.facetName
  step Parser.skipBlank
  let filter ← group
  step <| Parser.note <| .nestedFilter path
  return { path, filter }

-- The closing bracket is looked for behind an entry only.
def entries (fuel : Nat) (entry : Tracing α) : Tracing (List α) :=
  loop round fuel []
where
  round (xs : List α) : Tracing (ForInStep (List α)) := do
    step Parser.skipBlank
    if ← closes xs then
      return .done xs
    else
      let c ← step Parser.here
      if c.atEnd then
        refuse ⟨c.offset, .closingBracket⟩
      else
        let x ← entry
        step Parser.skipBlank
        let _ ← step (Parser.eat [','])
        return .yield (xs ++ [x])
  closes : List α → Tracing Bool
    | []     => return false
    | _ :: _ => step (Parser.eat [']'])

def clause (b : Bracket) (fuel : Nat) (entry : Tracing α) : Tracing (List α) :=
  measured .clause do
    step <| Parser.keyword b
    bracketed '[' .openBracket (entries fuel entry)

def text (fuel : Nat) : Tracing Fragment := do
  let c ← step Parser.here
  if c.peek = some ')' then
    refuse ⟨c.offset, .endOfInput⟩
  else
    let f ← sequence fuel (item (group fuel)) .query
    step <| Parser.note <| .fragment f
    return f

def part (fuel : Nat) : Tracing Part := do
  match Bracket.at? (← step Parser.here).rest with
  | some .facets => .facets <$> clause .facets fuel (facet (group fuel))
  | some .nested => .nested <$> clause .nested fuel (nested (group fuel))
  | none         => .text <$> text fuel

def parts (fuel : Nat) : Tracing (List Part) :=
  loop round fuel []
where
  round (xs : List Part) : Tracing (ForInStep (List Part)) := do
    step Parser.skipBlank
    if (← step Parser.here).atEnd then
      return .done xs
    else
      return .yield (xs ++ [← part fuel])

def query (fuel : Nat) : Tracing Query := do
  let docType ← step Parser.typeClause
  return { docType, parts := ← parts fuel }

end Tracing

-- Compiles a query with a trace, unless the fuel is used up.
def compileTracing? (fuel : Nat) (options : CompilerOptions) (text : String) :
    Option (Except ParseError Document × List Mark) :=
  match Tracing.query fuel ⟨options.maxDepth, .start (Query.normalize text), []⟩ with
  | .ok q t               => some (.ok q.document, t.marks)
  | .error (.refused e) t => some (.error e, t.marks)
  | .error .exhausted _   => none

namespace Session

-- Lets a traced reader go on from here.
def trace? (read : Tracing α) (s : Session) :
    Option ((Except ParseError α × Session) × List Mark) :=
  match read ⟨s.maxDepth, s.state, []⟩ with
  | .ok a t               => some ((.ok a, { s with state := t.state }), t.marks)
  | .error (.refused e) t => some ((.error e, { s with state := t.state }), t.marks)
  | .error .exhausted _   => none

-- Does what `perform` does, with a trace. Only what a grammar reads is traced.
def performTracing? (fuel : Nat) : Operation α → Session → Option ((α × Session) × List Mark)
  | .sequence scope, s =>
    s.trace? <| Tracing.sequence fuel (Tracing.item (Tracing.group fuel)) scope
  | .group, s          => s.trace? <| Tracing.group fuel
  | .typeClause, s     => s.trace? <| Tracing.step Parser.typeClause
  | .facetsClause, s   =>
    s.trace? <| Tracing.clause .facets fuel (Tracing.facet (Tracing.group fuel))
  | .nestedClause, s   =>
    s.trace? <| Tracing.clause .nested fuel (Tracing.nested (Tracing.group fuel))
  | op, s              => some (s.perform op, [])

end Session

end SearchQuery
