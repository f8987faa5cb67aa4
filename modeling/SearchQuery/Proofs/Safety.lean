import SearchQuery.Proofs.Refinement
import SearchQuery.Proofs.Slice

namespace SearchQuery

open Text Cursor

namespace Operation

variable {α : Type}

def IsReset : Operation α → Prop
  | reset _ => True
  | _       => False

-- One may only go back to a position which was told before.
def IsAllowed (told : List Nat) : Operation α → Prop
  | reset n => n ∈ told
  | _       => True

-- The positions that are told by an answer.
def tells : Operation α → α → List Nat
  | position, n => [n]
  | _, _        => []

end Operation

namespace Cursor

variable {c : Cursor} {text u r : List Char} {n before : Nat}

theorem seek_go_append (hu : before + size u = n) : seek.go n before (u ++ r) = ⟨n, r⟩ := by
  induction u generalizing before
  case nil =>
    have hb : before = n := hu
    cases r <;> simp [seek.go, hb]
  case cons d u hi =>
    have hd := d.utf8Size_pos
    rw [size_cons] at hu
    rw [List.cons_append, seek.go, if_neg (by omega)]
    exact hi (by omega)

-- Each place in a text is found again by its offset.
theorem seek_offset (h : start text ≤ c) : seek text c.offset = c := by
  obtain ⟨u, hr, ho⟩ := h
  have ht : text = u ++ c.rest := hr
  rw [seek, ht]
  exact seek_go_append ho.symm

theorem le_seek_go : (⟨before, text⟩ : Cursor) ≤ seek.go n before text := by
  induction text generalizing before
  case nil => exact le_refl
  case cons d text hi =>
    rw [seek.go]
    split
    case isTrue  => exact le_refl
    case isFalse => exact le_trans ⟨[d], rfl, by simp⟩ hi

-- Whatever the offset is, the place which is found is one in the text.
theorem le_seek : start text ≤ seek text n :=
  le_seek_go

end Cursor

namespace Session

variable {α : Type} {input : String} {maxDepth : Nat} {told : List Nat} {s : Session}
variable {text : List Char} {n : Nat}

-- What is done to `input` operation by operation leads to this session, in which the positions
-- `told` are known. Any operation may have failed.
inductive Reached (input : String) (maxDepth : Nat) : List Nat → Session → Prop
  | start : Reached input maxDepth [] (.start input maxDepth)
  | perform {told : List Nat} {s : Session} {α : Type} (op : Operation α) :
    Reached input maxDepth told s → op.IsAllowed told →
    Reached input maxDepth (op.tells (s.perform op).1 ++ told) (s.perform op).2

-- The cursor is a place in the text, and so is each known position.
structure Sound (text : List Char) (told : List Nat) (s : Session) : Prop where
  input  : s.input = text
  placed : s.Placed
  told   : ∀ n ∈ told, ∃ c, Cursor.start text ≤ c ∧ c.offset = n

-- Only the state of a session changes.
theorem perform_frame (s : Session) (op : Operation α) :
    (s.perform op).2 = { s with state := (s.perform op).2.state } := by
  have hr {β : Type} (p : Parser β) : (s.run p).2 = { s with state := (s.run p).2.state } := by
    unfold run
    split <;> rfl
  have ht {β : Type} (find : Cursor → Option (β × Cursor)) :
      (s.take? find).2 = { s with state := (s.take? find).2.state } := by
    unfold take?
    split <;> rfl
  cases op <;> first | exact hr _ | exact ht _ | rfl | (rw [perform]; split <;> rfl)

theorem input_perform (s : Session) (op : Operation α) : (s.perform op).2.input = s.input := by
  rw [perform_frame]

theorem le_run {p : Parser α} (h : Parser.Keeps (fun t t' => t.cursor ≤ t'.cursor) p) :
    s.cursor ≤ (s.run p).2.cursor := by
  have hl := h s.state
  unfold Parser.last at hl
  unfold run
  split at hl <;> simp_all [cursor]

theorem stepwise_cursor : Parser.Stepwise fun t t' => t.cursor ≤ t'.cursor where
  refl _       := le_refl
  trans h₁ h₂  := le_trans h₁ h₂
  moved _ _ h  := h
  entered _    := le_refl
  left _       := le_refl
  noted _ _ _  := le_refl

theorem le_perform {op : Operation α} (h : ¬op.IsReset) : s.cursor ≤ (s.perform op).2.cursor := by
  have hR := stepwise_cursor
  have ht {β : Type} {find : Cursor → Option (β × Cursor)}
      (hl : ∀ {c a c'}, find c = some (a, c') → c < c') : s.cursor ≤ (s.take? find).2.cursor := by
    unfold take?
    split
    case h_1 hf => exact le_of_lt (hl hf)
    case h_2    => exact le_refl
  cases op
  case position | rest | atEnd | peek | peekConnector | peekClause => exact le_refl
  case reset => exact absurd trivial h
  case skipBlank => exact le_skipBlank
  case eat text =>
    rw [perform]
    split
    case h_1 he => exact le_of_eat? he
    case h_2    => exact le_refl
  case key | word | name | typeWord => exact ht lt_of_span?
  case operator  => exact ht lt_of_operator?
  case connector => exact ht lt_of_connector?
  case phrase => exact le_run hR.phrase
  case sequence => exact le_run (hR.sequence (hR.item (hR.group _)))
  case group => exact le_run (hR.group _)
  case typeClause => exact le_run hR.typeClause
  case facetsClause => exact le_run (hR.clause _ hR.facet _)
  case nestedClause => exact le_run (hR.clause _ hR.nested _)

theorem Placed.perform (h : s.Placed) (op : Operation α) : (s.perform op).2.Placed := by
  rw [Placed, input_perform]
  by_cases hr : op.IsReset
  case pos =>
    cases op
    case reset => exact le_seek
    all_goals exact hr.elim
  case neg => exact le_trans h (le_perform hr)

theorem perform_reset (h : s.Sound text told) (ha : n ∈ told) :
    ∃ c, Cursor.start text ≤ c ∧ c.offset = n ∧ (s.perform (.reset n)).2 = s.moveTo c := by
  obtain ⟨c, hc, rfl⟩ := h.told n ha
  refine ⟨c, hc, rfl, ?_⟩
  rw [perform, h.input, seek_offset hc]

namespace Sound

variable {op : Operation α}

theorem start (input : String) (maxDepth : Nat) :
    (Session.start input maxDepth).Sound input.toList [] where
  input  := rfl
  placed := le_refl
  told   := nofun

-- Only the position of the cursor is told.
theorem perform (h : s.Sound text told) :
    (s.perform op).2.Sound text (op.tells (s.perform op).1 ++ told) where
  input  := (input_perform s op).trans h.input
  placed := h.placed.perform op
  told   := by
    cases op
    case position => exact List.forall_mem_cons.mpr ⟨⟨_, h.input ▸ h.placed, rfl⟩, h.told⟩
    all_goals exact h.told

-- A scanner finds every slice it takes, and its answer is the answer of the session.
theorem scanner_perform (h : s.Sound text told) (ha : op.IsAllowed told) :
    s.scanner.perform op = some ((s.perform op).1, (s.perform op).2.scanner) := by
  have hp := h.placed
  have hs : s.Ready s.maxDepth s.state.depth := ⟨hp, rfl, rfl⟩
  cases op
  case position => rfl
  case rest => simp [Scanner.perform, Scan.rest_eq hp, Session.perform]
  case atEnd => exact Scan.atEnd_eq hp
  case peek => exact Scan.peek_eq hp
  case reset n =>
    obtain ⟨c, -, hn, he⟩ := perform_reset h ha
    rw [he, ← hn]
    rfl
  case skipBlank => exact Scan.skipBlank_eq hp
  case eat => exact Scan.eat_eq hp
  case key | word | name | typeWord => exact Scan.word_eq hp
  case operator => exact Scan.operator_eq hp
  case connector => exact Scan.connector_eq hp
  case peekConnector => exact Scan.peekSpelling_eq hp
  case peekClause => exact Scan.peekBracket_eq hp
  case phrase => exact (Reading.follows_quoted hs).result
  case sequence => exact (Reading.follows_sequence hs Reading.follows_group).result
  case group => exact (Reading.follows_group hs).result
  case typeClause => exact (Reading.follows_typeClause hs).result
  case facetsClause => exact (Reading.follows_clause hs Reading.follows_facet).result
  case nestedClause => exact (Reading.follows_clause hs Reading.follows_nested).result

end Sound

theorem Reached.sound (h : Reached input maxDepth told s) : s.Sound input.toList told := by
  induction h
  case start      => exact .start input maxDepth
  case perform hs => exact hs.perform

-- Every session stands at a place of its input: what is read and what is left make up the input. No
-- operation which it may do takes a slice that does not exist, and only going back moves the cursor
-- back. Nor does escaping take such a slice.
theorem reached_safe (h : Reached input maxDepth told s) :
    (∃ consumed : String, consumed ++ (s.perform .rest).1 = input ∧
      consumed.utf8ByteSize = (s.perform .position).1) ∧
    (s.perform .position).1 ≤ input.utf8ByteSize ∧
    (∀ {α : Type} (op : Operation α), op.IsAllowed told →
      (op.IsReset ∨ s.cursor ≤ (s.perform op).2.cursor) ∧
      s.scanner.perform op = some ((s.perform op).1, (s.perform op).2.scanner)) ∧
    ∀ (e : Escaping) (text : String), e.encodeSlices text.toList = some (e.apply text).toList := by
  have hs := h.sound
  obtain ⟨u, hu, hn⟩ := hs.placed.exists_before
  rw [hs.input] at hu
  have hc : String.ofList u ++ (s.perform .rest).1 = input := by
    rw [perform, ← String.ofList_append, ← hu, String.ofList_toList]
  have hp : (String.ofList u).utf8ByteSize = (s.perform .position).1 := by
    rw [perform, ← hn, ← size_toList, String.toList_ofList]
  refine ⟨⟨_, hc, hp⟩, ?_, fun op ha => ⟨?_, hs.scanner_perform ha⟩, fun e text => ?_⟩
  · rw [← hp, ← hc, String.utf8ByteSize_append]
    exact Nat.le_add_right ..
  · exact or_iff_not_imp_left.mpr le_perform
  · rw [Escaping.toList_apply, Escaping.encodeSlices_eq]

theorem reached_safe_unclosed :
    let s := ((((start "ä\"ö" 0).perform .position).2.perform (.eat "ä")).2.perform .phrase).2
    Reached "ä\"ö" 0 [0] s ∧ (s.perform .position).1 = 3 ∧
      s.scanner.perform (.reset 0) = some ((), ⟨['ä', '"', 'ö'], 0, 0, 0⟩) := by
  have h : Reached "ä\"ö" 0 [0] _ := .perform .phrase
    (.perform (.eat "ä") (.perform .position .start trivial) trivial) trivial
  have ⟨_, _, hs, _⟩ := reached_safe h
  exact ⟨h, by decide, (hs (.reset 0) (List.mem_singleton_self 0)).2⟩

end Session

end SearchQuery
