import SearchQuery.Proofs.Progress
import SearchQuery.Proofs.Safety

namespace SearchQuery

open Text Cursor Tracer

-- The operation answers with an error.
def Operation.Fails : Operation α → α → Prop
  | phrase, .error _ | sequence _, .error _ | group, .error _ | typeClause, .error _
  | facetsClause, .error _ | nestedClause, .error _ => True
  | _, _ => False

namespace Session

variable {α : Type} {fuel levels : Nat} {s : Session} {op : Operation α} {v : α → Nat}
variable {x : Tracing α} {p : Parser α} {ms : List Mark} {σ : List (Char × Nat)}

-- The session after the operations.
def after (s : Session) (ops : List (Σ α, Operation α)) : Session :=
  ops.foldl (fun s op => (s.perform op.2).2) s

-- The trace `ms` of the operation accounts for the depth it leaves behind, with the brackets `σ`
-- still open.
structure Accounts (s : Session) (op : Operation α) (ms : List Mark) (σ : List (Char × Nat)) :
    Prop where
  nests    : Nests s.state.depth s.maxDepth ms σ
  depth    : (s.perform op).2.state.depth = s.state.depth + σ.length
  closed   : ¬op.Fails (s.perform op).1 → σ = []
  brackets : ∀ m ∈ ms, m.event.Holds s.cursor

theorem trace?_eq (h : Tracing.Follows s.cursor 0 v x p ⟨s.maxDepth, s.state, []⟩) :
    ∃ ms has σ, s.trace? x = some (s.run p, ms) ∧
      Passage s.cursor s.maxDepth 0 has ms σ s.state (s.run p).2.state ∧
      ∀ a, (s.run p).1 = .ok a → σ = [] := by
  unfold trace? run
  cases hp : p s.state
  case ok a s' =>
    obtain ⟨ms, hx, hm⟩ := h.ok hp
    exact ⟨ms, v a, [], by simp [hx, Tracer.after], hm, fun _ _ => rfl⟩
  case error e s' =>
    obtain ⟨ms, σ, hx, hm⟩ := h.error hp
    exact ⟨ms, 0, σ, by simp [hx, Tracer.after], hm, by rintro _ ⟨⟩⟩

-- What a grammar reads is traced.
theorem accounts_read {op : Operation (Except ParseError α)}
    (h : Tracing.Follows s.cursor 0 v x p ⟨s.maxDepth, s.state, []⟩)
    (ht : s.performTracing? fuel op = s.trace? x) (hp : s.perform op = s.run p)
    (he : ∀ e, op.Fails (.error e)) :
    ∃ ms σ, s.performTracing? fuel op = some (s.perform op, ms) ∧ s.Accounts op ms σ := by
  obtain ⟨ms, has, σ, hx, hm, hc⟩ := trace?_eq h
  rw [← hp] at hx hm hc
  refine ⟨ms, σ, ht.trans hx, hm.nests, hm.depth, fun hf => ?_, hm.holds⟩
  cases ha : (s.perform op).1
  case ok    => exact hc _ ha
  case error => exact absurd (ha ▸ he _) hf

-- Nothing else changes the depth.
theorem accounts_silent (ht : s.performTracing? fuel op = some (s.perform op, []))
    (hd : (s.perform op).2.state.depth = s.state.depth) :
    ∃ ms σ, s.performTracing? fuel op = some (s.perform op, ms) ∧ s.Accounts op ms σ :=
  ⟨[], [], ht, .nil, hd, fun _ => rfl, nofun⟩

theorem depth_take? {find : Cursor → Option (α × Cursor)} :
    (s.take? find).2.state.depth = s.state.depth := by
  unfold take?
  split <;> rfl

theorem depth_run (h : Parser.Keeps Parser.Ahead p) :
    (s.run p).2.state.depth = s.state.depth := by
  unfold run
  cases hp : p s.state
  case ok    => exact (h.ok hp).depth
  case error => exact (h.error hp).depth

theorem accounts_perform (op : Operation α) (hd : s.state.depth ≤ s.maxDepth)
    (hf : size s.cursor.rest < fuel) :
    ∃ ms σ, s.performTracing? fuel op = some (s.perform op, ms) ∧ s.Accounts op ms σ := by
  have hr : Tracer.Ready s.cursor fuel s.levels ⟨s.maxDepth, s.state, []⟩ :=
    ⟨le_refl, hf, by simp [levels]; omega⟩
  cases op
  case position | rest | atEnd | peek | peekConnector | peekClause | reset | skipBlank =>
    exact accounts_silent rfl rfl
  case eat text =>
    refine accounts_silent rfl ?_
    rw [perform]
    split <;> rfl
  case key | word | name | typeWord | operator | connector => exact accounts_silent rfl depth_take?
  case phrase => exact accounts_silent rfl (depth_run Parser.steady_ahead.phrase)
  case sequence =>
    exact accounts_read (Tracing.follows_sequence hr fun hr => Tracing.follows_item hr
      Tracing.follows_group) rfl rfl fun _ => trivial
  case group => exact accounts_read (Tracing.follows_group hr) rfl rfl fun _ => trivial
  case typeClause =>
    exact accounts_read (.step Parser.steady_ahead.typeClause) rfl rfl fun _ => trivial
  case facetsClause =>
    exact accounts_read (Tracing.follows_clause hr Tracing.follows_facet) rfl rfl fun _ => trivial
  case nestedClause =>
    exact accounts_read (Tracing.follows_clause hr Tracing.follows_nested) rfl rfl fun _ => trivial

-- The session is at work on its text, and not deeper than it may be.
structure Within (text : List Char) (limit : Nat) (s : Session) : Prop where
  input    : s.input = text
  maxDepth : s.maxDepth = limit
  placed   : s.Placed
  depth    : s.state.depth ≤ limit

namespace Within

variable {text : List Char} {limit : Nat}

theorem start (input : String) (maxDepth : Nat) :
    (Session.start input maxDepth).Within input.toList maxDepth where
  input    := rfl
  maxDepth := rfl
  placed   := le_refl
  depth    := Nat.zero_le maxDepth

theorem le_cursor (h : s.Within text limit) : Cursor.start text ≤ s.cursor :=
  h.input ▸ h.placed

theorem accounts (h : s.Within text limit) (op : Operation α) (hf : size text < fuel) :
    ∃ ms σ, s.performTracing? fuel op = some (s.perform op, ms) ∧ s.Accounts op ms σ := by
  have hs : size s.cursor.rest ≤ size text := size_le_of_le h.le_cursor
  exact accounts_perform op (h.maxDepth ▸ h.depth) (by omega)

theorem perform (h : s.Within text limit) (op : Operation α) :
    (s.perform op).2.Within text limit where
  input    := (input_perform s op).trans h.input
  maxDepth := by rw [perform_frame, h.maxDepth]
  placed   := h.placed.perform op
  depth    := by
    obtain ⟨_, _, _, ha⟩ := h.accounts op (Nat.lt_succ_self _)
    rw [ha.depth, ← h.maxDepth]
    exact ha.nests.length_le (h.maxDepth ▸ h.depth)

theorem after (h : s.Within text limit) (ops : List (Σ α, Operation α)) :
    (s.after ops).Within text limit := by
  induction ops generalizing s
  case nil => exact h
  case cons op ops ih => exact ih (h.perform op.2)

end Within

-- Whatever a session has done, it is not deeper than it may be, and neither is it while it goes on
-- with an operation. The operation fails if it leaves the session on another level, and what this
-- level is higher by are the parentheses and brackets of the input which were entered and not left.
-- Only levels which were entered are left.
theorem depth_after (input : String) (maxDepth : Nat) (ops : List (Σ α, Operation α))
    (op : Operation α) (h : input.utf8ByteSize < fuel) :
    let s := (start input maxDepth).after ops
    s.state.depth ≤ maxDepth ∧
    ∃ ms, s.performTracing? fuel op = some (s.perform op, ms) ∧
      (∀ m ∈ ms, m.depth ≤ maxDepth) ∧
      (¬op.Fails (s.perform op).1 → (s.perform op).2.state.depth = s.state.depth) ∧
      (s.perform op).2.state.depth + (Mark.left '(' ms + Mark.left '[' ms) =
        s.state.depth + (Mark.entered '(' ms + Mark.entered '[' ms) ∧
      (∀ b n depth, ⟨.enter b n, depth⟩ ∈ ms → ∃ u r, input.toList = u ++ b :: r ∧ size u = n) ∧
      ∀ b depth, ⟨.leave b, depth⟩ ∈ ms → 0 < depth := by
  intro s
  have hs : s.Within input.toList maxDepth := (Within.start input maxDepth).after ops
  obtain ⟨ms, σ, he, ha⟩ := hs.accounts op (size_toList input ▸ h)
  refine ⟨hs.depth, ms, he, ?_, fun hn => ?_, ?_, fun b n d hm => ?_,
    fun b d hm => ha.nests.leave_pos _ hm rfl⟩
  · exact hs.maxDepth ▸ ha.nests.depth_le (hs.maxDepth ▸ hs.depth)
  · rw [ha.depth, ha.closed hn]
    rfl
  · have hl := ha.nests.length_eq ha.brackets
    rw [ha.depth]
    omega
  · have ⟨_, c, hc, hn, hp⟩ := ha.brackets _ hm
    have ⟨u, hu⟩ := le_trans hs.le_cursor hc
    have ⟨r, hr⟩ := List.head?_eq_some_iff.mp hp
    exact ⟨u, r, hr ▸ hu.rest, by simpa [← hn, Cursor.start] using hu.offset.symm⟩

-- A group which was not closed is still open when the next one is entered.
theorem depth_after_unclosed :
    let s := (start "(a" 2).after [⟨_, .group⟩, ⟨_, .reset 0⟩]
    "(a".utf8ByteSize < 3 ∧ s.state.depth = 1 ∧ (s.perform .group).2.state.depth = 2 ∧
    s.performTracing? 3 .group = some (s.perform .group, [
      ⟨.round, 2⟩, ⟨.loop, 2⟩, ⟨.done .item 1 2, 2⟩, ⟨.enter '(' 0, 2⟩]) := by
  intro s
  have hl : "(a".utf8ByteSize < 3 := by decide
  have hd : s.state.depth = 1 := by decide +kernel
  have ht : (s.performTracing? 3 .group).map (·.2) = some [
      ⟨.round, 2⟩, ⟨.loop, 2⟩, ⟨.done .item 1 2, 2⟩, ⟨.enter '(' 0, 2⟩] := by decide +kernel
  obtain ⟨_, ms, he, _, _, hs, _⟩ :=
    depth_after "(a" 2 [⟨_, .group⟩, ⟨_, .reset 0⟩] .group hl
  rw [he, Option.map_some, Option.some.injEq] at ht
  subst ht
  have hs : (s.perform .group).2.state.depth + (0 + 0) = s.state.depth + (1 + 0) := hs
  exact ⟨hl, hd, by omega, he⟩

end Session

end SearchQuery
