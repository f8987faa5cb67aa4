import SearchQuery.Proofs.Bookkeeping

namespace SearchQuery

open Text Cursor Tracer

theorem Fragment.joined_assoc {j k : Junction} {f g h : Fragment} :
    f.joined j (g.joined k h) = (f.joined j g).joined k h := by
  fun_induction f.joined j g
  case case1 => rfl
  case case2 hi => simp [joined, hi]

namespace Parser

variable {scope : Scope} {item : Advancing Item} {j : Junction} {f g : Fragment}

def sequenceRound (item : Advancing Item) (scope : Scope) (f : Fragment) :
    Parser (ForInStep Fragment) := do
  match ← junction? scope with
  | none   => return .done f
  | some j => return .yield (f.joined j (.single (← item.run)))

-- Reads what follows `f`, and puts it behind it.
def sequenceFrom (item : Advancing Item) (scope : Scope) (f : Fragment) : Parser Fragment := do
  match ← junction? scope with
  | none   => return f
  | some j => (f.joined j ·) <$> sequence item scope

theorem sequence_eq_from :
    sequence item scope = item.run >>= fun i => sequenceFrom item scope (.single i) :=
  sequence_eq item

theorem map_sequenceFrom : (f.joined j ·) <$> sequenceFrom item scope g =
    sequenceFrom item scope (f.joined j g) := by
  simp only [sequenceFrom, map_bind]
  refine bind_congr fun k => ?_
  cases k
  case none => simp
  case some k => simp [Fragment.joined_assoc]

theorem repeats_sequence : Repeats (sequenceRound item scope) (sequenceFrom item scope) := by
  intro f
  rw [sequenceFrom, sequenceRound, bind_assoc]
  refine bind_congr fun j => ?_
  cases j
  case none => simp
  case some j => simp [sequence_eq_from, map_sequenceFrom]

-- Reads what stands inside of a group, and the parenthesis which closes it.
def closed (inside : Parser Fragment) : Parser Fragment := do
  skipBlank
  let f ← inside
  skipBlank
  expect [')'] .closingParen
  return f

theorem enclosed_eq (inside : Parser Fragment) : enclosed inside = (do
    expect ['('] .openParen
    enter
    let f ← closed inside
    leave
    return f) := by
  simp [enclosed, closed]

variable {α : Type} {entry : Advancing α} {b : Bracket} {levels : Nat}

-- The first entry cannot be missing.
def closes : List α → Parser Bool
  | []     => return false
  | _ :: _ => eat [']']

def entriesRound (entry : Advancing α) (xs : List α) : Parser (ForInStep (List α)) := do
  skipBlank
  if ← closes xs then
    return .done xs
  else
    let c ← here
    if c.atEnd then
      throw ⟨c.offset, .closingBracket⟩
    else
      let x ← entry.run
      skipBlank
      let _ ← eat [',']
      return .yield (xs ++ [x])

-- Reads what follows the entries `xs`, and puts it behind them.
def entriesFrom (entry : Advancing α) (xs : List α) : Parser (List α) := do
  skipBlank
  if ← closes xs then
    return xs
  else
    (xs ++ ·) <$> entries entry

theorem repeats_entries : Repeats (entriesRound entry) (entriesFrom entry) := by
  intro xs
  have hc (x : α) : closes (xs ++ [x]) = eat [']'] := by cases xs <;> rfl
  simp only [entriesFrom, entriesRound, bind_assoc]
  refine bind_congr fun _ => bind_congr fun c => ?_
  cases c
  case true => simp
  case false =>
    conv_lhs => rw [entries_eq]
    simp only [map_bind, bind_assoc, Bool.false_eq_true, if_false]
    refine bind_congr fun c => ?_
    split
    case isTrue  => rfl
    case isFalse =>
      simp only [separator, map_bind, bind_assoc, pure_bind, hc]
      refine bind_congr fun x => bind_congr fun _ => bind_congr fun _ => bind_congr fun _ =>
        bind_congr fun c => ?_
      cases c <;> simp

def partsRound (levels : Nat) (xs : List Part) : Parser (ForInStep (List Part)) := do
  skipBlank
  if (← here).atEnd then
    return .done xs
  else
    return .yield (xs ++ [← part levels])

theorem repeats_parts : Repeats (partsRound levels) fun xs => (xs ++ ·) <$> parts levels := by
  intro xs
  simp only [partsRound, bind_assoc]
  conv_lhs => rw [parts_eq]
  simp only [map_bind]
  refine bind_congr fun _ => bind_congr fun c => ?_
  split <;> simp

theorem clause_succ (entry : Advancing Fragment → Advancing α) :
    (clause b entry (levels + 1)).run = (do
      keyword b
      expect ['['] .openBracket
      enter
      let xs ← entriesFrom (entry (group levels)) []
      leave
      return xs) := by
  simp [clause, entriesFrom, closes]

end Parser

namespace Tracing

variable {α : Type} {c₀ : Cursor} {fuel levels o : Nat} {t : Tracer} {scope : Scope}
variable {x : Tracing Fragment} {p : Parser Fragment}

theorem follows_operand (hr : t.Ready c₀ fuel levels)
    (hx : ∀ {o t}, t.Ready c₀ fuel levels → Follows c₀ o (fun _ => o + 1) x p t) :
    Follows c₀ o (fun _ => o) (operand x) (Parser.operand p) t := by
  refine .here ?_
  cases t.state.cursor.peek
  case none => exact .refuse
  case some c =>
    by_cases hq : c = '"'
    case pos =>
      subst hq
      exact (Follows.step Parser.steady_ahead.phrase).map hr fun _ => Nat.le_refl o
    by_cases ho : c = '('
    case pos =>
      subst ho
      exact (hx hr).map hr fun _ => Nat.le_succ o
    simp only
    exact (Follows.step Parser.steady_ahead.bareWord).map hr fun _ => Nat.le_refl o

theorem follows_item (hr : t.Ready c₀ fuel levels)
    (hx : ∀ {o t}, t.Ready c₀ fuel levels → Follows c₀ o (fun _ => o + 1) x p t) :
    Follows c₀ o (fun _ => o + 1) (item x) (Parser.item p) t := by
  refine .measured hr <| .here ?_
  cases t.state.cursor.peek
  case none => exact .refuse
  case some c =>
    by_cases hc : c = ')'
    case pos => exact hc ▸ .refuse
    by_cases ho : c = '('
    case pos =>
      subst ho
      exact (hx hr).map hr fun _ => Nat.le_refl _
    by_cases hq : c = '"'
    case pos =>
      subst hq
      exact (Follows.step_advances Parser.phrase_advances Parser.steady_ahead.phrase).map hr
        fun _ => Nat.le_refl _
    simp only
    refine (Follows.take? lt_of_span?).bind hr fun {key _} hr _ _ => ?_
    cases key
    case none =>
      exact (Follows.step_advances Parser.bareWord_advances Parser.steady_ahead.bareWord).map hr
        fun _ => Nat.le_refl _
    case some =>
      refine (Follows.take? lt_of_operator?).bind hr fun {op _} hr _ _ => ?_
      cases op
      case none => exact .pure (Nat.le_refl _)
      case some => exact (follows_operand hr hx).map hr fun _ => Nat.le_succ _

theorem follows_sequence {i : Tracing Item} {item : Advancing Item} (hr : t.Ready c₀ fuel levels)
    (hi : ∀ {o t}, t.Ready c₀ fuel levels → Follows c₀ o (fun _ => o + 1) i item.run t) :
    Follows c₀ o (fun _ => o + 1) (sequence fuel i scope) (Parser.sequence item scope) t := by
  rw [Parser.sequence_eq_from]
  refine (hi hr).bind hr fun hr _ _ => follows_loop Parser.repeats_sequence (fun hr => ?_) hr _
  refine .bind_step hr Parser.steady_ahead.junction? fun {j _} hr => ?_
  cases j
  case none => exact .pure (Nat.le_refl _)
  case some => exact (hi hr).bind hr fun _ _ _ => .pure (Nat.le_refl _)

-- By induction on the levels. The fuel lasts as well, as the parenthesis is consumed before.
theorem follows_group (hr : t.Ready c₀ fuel levels) :
    Follows c₀ o (fun _ => o + 1) (group fuel) (Parser.group levels).run t := by
  induction levels generalizing fuel o t
  all_goals cases fuel
  case zero.zero | succ.zero => exact absurd hr.fuel (Nat.not_lt_zero _)
  case zero.succ => exact .measured hr (.bracketed_refuse hr)
  case succ.succ levels ih fuel =>
    have he : (Parser.group (levels + 1)).run = _ := Parser.enclosed_eq _
    rw [he]
    refine .measured hr <| .bracketed hr (.inl rfl) fun hr' hc => ?_
    have hr := hr.of_lt hr' hc
    refine .bind_step hr Parser.steady_ahead.skipBlank fun hr => ?_
    refine .bind hr (follows_sequence hr fun hr => follows_item hr ih) fun hr _ _ => ?_
    refine .bind_step hr Parser.steady_ahead.skipBlank fun hr => ?_
    refine .bind_step hr Parser.steady_ahead.expect fun _ => ?_
    exact .pure (Nat.le_succ _)

theorem follows_filter? (hr : t.Ready c₀ fuel levels) :
    Follows c₀ o (fun _ => o) (filter? (group fuel)) (Parser.filter? (Parser.group levels).run)
      t := by
  refine .here ?_
  split
  case isTrue =>
    refine .bind_step hr Parser.steady_ahead.skipBlank fun hr => ?_
    exact (follows_group hr).map hr fun _ => Nat.le_succ o
  case isFalse => exact .pure (Nat.le_refl o)

theorem follows_facet (hr : t.Ready c₀ fuel levels) :
    Follows c₀ o (fun _ => o + 1) (facet (group fuel)) (Parser.facet (Parser.group levels)).run
      t := by
  have hn := Parser.steady_ahead.facetName
  refine .measured hr <| .bind hr (.step_advances Parser.facetName_advances hn) fun hr _ _ => ?_
  refine .bind hr (follows_filter? hr) fun hr _ _ => ?_
  exact .bind hr .note fun _ _ _ => .pure (Nat.le_refl _)

theorem follows_nested (hr : t.Ready c₀ fuel levels) :
    Follows c₀ o (fun _ => o + 1) (nested (group fuel)) (Parser.nested (Parser.group levels)).run
      t := by
  have hn := Parser.steady_ahead.facetName
  refine .measured hr <| .bind hr (.step_advances Parser.facetName_advances hn) fun hr _ _ => ?_
  refine .bind_step hr Parser.steady_ahead.skipBlank fun hr => ?_
  refine .bind hr (follows_group hr) fun hr _ _ => ?_
  exact .bind hr .note fun _ _ _ => .pure (Nat.le_succ _)

theorem follows_entries {x : Tracing α} {entry : Advancing α} (hr : t.Ready c₀ fuel levels)
    (hx : ∀ {o t}, t.Ready c₀ fuel levels → Follows c₀ o (fun _ => o + 1) x entry.run t) :
    Follows c₀ o (fun _ => o) (entries fuel x) (Parser.entriesFrom entry []) t := by
  refine follows_loop Parser.repeats_entries (fun {xs _} hr => ?_) hr []
  refine .bind_step hr Parser.steady_ahead.skipBlank fun hr => ?_
  have hc {t} : Follows c₀ o (fun _ => o) (entries.closes xs) (Parser.closes xs) t := by
    cases xs
    case nil => exact .pure (Nat.le_refl o)
    case cons => exact .step Parser.steady_ahead.eat
  refine .bind hr hc fun hr _ _ => ?_
  split
  case isTrue => exact .pure (Nat.le_refl o)
  case isFalse =>
    refine .here ?_
    split
    case isTrue => exact .refuse
    case isFalse =>
      refine .bind hr (hx hr) fun hr _ _ => ?_
      refine .bind_step hr Parser.steady_ahead.skipBlank fun hr => ?_
      exact .bind_step hr Parser.steady_ahead.eat fun _ => .pure (Nat.le_refl _)

theorem follows_clause {x : Tracing α} {b : Bracket} {entry : Advancing Fragment → Advancing α}
    (hr : t.Ready c₀ fuel levels) (hx : ∀ {o levels t}, t.Ready c₀ fuel levels →
      Follows c₀ o (fun _ => o + 1) x (entry (Parser.group levels)).run t) :
    Follows c₀ o (fun _ => o + 1) (clause b fuel x) (Parser.clause b entry levels).run t := by
  have hk : Follows c₀ o (fun _ => o + 1) (step (Parser.keyword b)) (Parser.keyword b) t :=
    .step_advances (Parser.keyword_advances b) (Parser.steady_ahead.keyword b)
  cases levels
  case zero => exact .measured hr <| .bind hr hk fun hr _ _ => .bracketed_refuse hr
  case succ levels =>
    rw [Parser.clause_succ]
    refine .measured hr <| .bind hr hk fun hr _ _ => .bracketed hr (.inr rfl) fun hr _ => ?_
    exact (follows_entries hr hx).mono fun _ => Nat.le_succ _

theorem follows_text (hr : t.Ready c₀ fuel levels) :
    Follows c₀ o (fun _ => o + 1) (text fuel) (Parser.text levels) t := by
  refine .here ?_
  split
  case isTrue => exact .refuse
  case isFalse =>
    refine .bind hr (follows_sequence hr fun hr => follows_item hr follows_group) fun hr _ _ => ?_
    exact .bind hr .note fun _ _ _ => .pure (Nat.le_refl _)

theorem follows_part (hr : t.Ready c₀ fuel levels) :
    Follows c₀ o (fun _ => o + 1) (part fuel) (Parser.part levels) t := by
  refine .here ?_
  cases Bracket.at? t.state.cursor.rest
  case none => exact (follows_text hr).map hr fun _ => Nat.le_refl _
  case some b =>
    cases b
    case facets => exact (follows_clause hr follows_facet).map hr fun _ => Nat.le_refl _
    case nested => exact (follows_clause hr follows_nested).map hr fun _ => Nat.le_refl _

theorem follows_parts (hr : t.Ready c₀ fuel levels) :
    Follows c₀ o (fun _ => o) (parts fuel) (Parser.parts levels) t := by
  rw [show Parser.parts levels = ([] ++ ·) <$> Parser.parts levels by simp]
  refine follows_loop Parser.repeats_parts (fun hr => ?_) hr []
  refine .bind_step hr Parser.steady_ahead.skipBlank fun hr => .here ?_
  split
  case isTrue  => exact .pure (Nat.le_refl o)
  case isFalse => exact (follows_part hr).bind hr fun _ _ _ => .pure (Nat.le_refl _)

theorem follows_query (hr : t.Ready c₀ fuel levels) :
    Follows c₀ o (fun _ => o) (query fuel) (Parser.query levels) t := by
  refine .bind_step hr Parser.steady_ahead.typeClause fun hr => ?_
  exact .bind hr (follows_parts hr) fun _ _ _ => .pure (Nat.le_refl o)

end Tracing

variable {fuel : Nat} {options : CompilerOptions} {text : String}

theorem compileTracing?_eq (h : size (Query.normalize text) < fuel) :
    ∃ ms has σ s, compileTracing? fuel options text = some (compile options text, ms) ∧
      Passage (.start (Query.normalize text)) options.maxDepth 0 has ms σ
        (.start (Query.normalize text)) s := by
  let t : Tracer := ⟨options.maxDepth, .start (Query.normalize text), []⟩
  have hr : t.Ready (.start (Query.normalize text)) fuel options.maxDepth :=
    ⟨le_refl, h, (Nat.zero_add _).symm⟩
  have hf := Tracing.follows_query (o := 0) hr
  unfold compileTracing? compile compileNoting Query.parse
  cases hq : Parser.query options.maxDepth (.start (Query.normalize text))
  case ok q s =>
    obtain ⟨ms, hx, hm⟩ := hf.ok hq
    exact ⟨ms, 0, [], s, by simp [hx, t, Tracer.after, Except.map], hm⟩
  case error e s =>
    obtain ⟨ms, σ, hx, hm⟩ := hf.error hq
    exact ⟨ms, 0, σ, s, by simp [hx, t, Tracer.after, Except.map], hm⟩

-- Every query is read to its end, or up to an error, by a reader which has as much fuel as the query
-- has bytes, and one more. Whatever was read on the way consumed something, and so did each round
-- but the last one of a loop, so there are no more rounds than bytes and loops. At any time at most
-- `maxDepth` groups are entered and not left.
theorem compile_progress (options : CompilerOptions) (text : String)
    (h : size (Query.normalize text) < fuel) :
    ∃ ms, compileTracing? fuel options text = some (compile options text, ms) ∧
      (∀ what start stop depth, ⟨.done what start stop, depth⟩ ∈ ms → start < stop) ∧
      Mark.rounds ms ≤ size (Query.normalize text) + Mark.loops ms ∧
      ∀ earlier, earlier <:+ ms →
        Mark.entered '(' earlier ≤ Mark.left '(' earlier + options.maxDepth := by
  obtain ⟨ms, has, σ, s, he, hm⟩ := compileTracing?_eq h
  refine ⟨ms, he, fun _ _ _ _ hd => hm.holds _ hd, ?_, fun earlier hs => ?_⟩
  · have hp : Mark.rounds ms + has + size s.cursor.rest ≤
        size (Query.normalize text) + Mark.loops ms + 0 := hm.paid
    omega
  · obtain ⟨τ, hn⟩ := hm.nests.of_suffix hs
    have hl : 0 + τ.length ≤ options.maxDepth := hn.length_le (Nat.zero_le _)
    have hc : τ.countP (·.1 = '(') ≤ τ.length := List.countP_le_length
    rw [hn.entered_eq]
    omega

theorem compile_progress_unclosed :
    size (Query.normalize "(a b") < 5 ∧
    ∃ ms, compileTracing? 5 ⟨1⟩ "(a b" = some (.error ⟨4, .closingParen⟩, ms) ∧
      Mark.rounds ms = 3 ∧ Mark.loops ms = 2 ∧ Mark.entered '(' ms = 1 ∧ Mark.left '(' ms = 0 ∧
      ⟨.done .round 2 4, 1⟩ ∈ ms := by
  have hs : size (Query.normalize "(a b") < 5 := by decide +kernel
  have hc : compile ⟨1⟩ "(a b" = .error ⟨4, .closingParen⟩ := by decide +kernel
  have ht : (compileTracing? 5 ⟨1⟩ "(a b").map (·.2) = some [
      ⟨.round, 1⟩, ⟨.done .round 2 4, 1⟩, ⟨.done .item 3 4, 1⟩, ⟨.round, 1⟩, ⟨.loop, 1⟩,
      ⟨.done .item 1 2, 1⟩, ⟨.enter '(' 0, 1⟩, ⟨.round, 0⟩, ⟨.loop, 0⟩] := by decide +kernel
  obtain ⟨ms, he, _⟩ := compile_progress ⟨1⟩ "(a b" hs
  rw [he, Option.map_some, Option.some.injEq] at ht
  subst ht
  exact ⟨hs, _, hc ▸ he, by decide, by decide, by decide, by decide, by decide⟩

end SearchQuery
