import SearchQuery.Trace

namespace SearchQuery

open Text Cursor

namespace Cursor

theorem size_lt_of_lt {c c' : Cursor} : c < c' → size c'.rest < size c.rest
  | ⟨u, hu, h⟩ => by
    have := Nat.pos_of_ne_zero (mt size_eq_zero_iff.mp hu)
    rw [h.rest, size_append]
    omega

theorem size_le_of_le {c c' : Cursor} : c ≤ c' → size c'.rest ≤ size c.rest
  | ⟨_, h⟩ => by simp [h.rest]

theorem offset_lt_of_lt {c c' : Cursor} : c < c' → c.offset < c'.offset
  | ⟨u, hu, h⟩ => by
    have := Nat.pos_of_ne_zero (mt size_eq_zero_iff.mp hu)
    rw [h.offset]
    omega

end Cursor

namespace Event

def ChangesLevel : Event → Prop
  | enter .. | leave _ => True
  | _                  => False

-- What the event tells is so in the text behind `c`.
def Holds (c : Cursor) : Event → Prop
  | enter b n         => (b = '(' ∨ b = '[') ∧ ∃ c', c ≤ c' ∧ c'.offset = n ∧ c'.peek = some b
  | done _ start stop => start < stop
  | _                 => True

end Event

namespace Mark

def rounds (ms : List Mark) : Nat :=
  ms.countP (·.event = .round)

def loops (ms : List Mark) : Nat :=
  ms.countP (·.event = .loop)

-- How often a level was entered at this bracket.
def entered (b : Char) (ms : List Mark) : Nat :=
  ms.countP fun m => match m.event with
    | .enter c _ => c = b
    | _          => false

def left (b : Char) (ms : List Mark) : Nat :=
  ms.countP (·.event = .leave b)

@[simp]
theorem rounds_append (ms ns : List Mark) : rounds (ms ++ ns) = rounds ms + rounds ns :=
  List.countP_append

@[simp]
theorem loops_append (ms ns : List Mark) : loops (ms ++ ns) = loops ms + loops ns :=
  List.countP_append

end Mark

-- From `d` levels on, never more than `limit` levels are open. The brackets `σ`, of which the last
-- one comes first, have been entered but not left. A level can only be left if its bracket is the
-- last of them, and each mark tells the number of levels right.
inductive Nests (d limit : Nat) : List Mark → List (Char × Nat) → Prop
  | nil :
    Nests d limit [] []
  | enter :
    Nests d limit ms σ → d + σ.length < limit →
    Nests d limit (⟨.enter b n, d + (σ.length + 1)⟩ :: ms) ((b, n) :: σ)
  | leave :
    Nests d limit ms ((b, n) :: σ) →
    Nests d limit (⟨.leave b, d + (σ.length + 1)⟩ :: ms) σ
  | other {e : Event} :
    ¬e.ChangesLevel → Nests d limit ms σ → Nests d limit (⟨e, d + σ.length⟩ :: ms) σ

theorem Nests.append (h₁ : Nests d limit ms σ) (h₂ : Nests (d + σ.length) limit ns τ) :
    Nests d limit (ns ++ ms) (τ ++ σ) := by
  have hl {τ : List (Char × Nat)} : d + σ.length + τ.length = d + (τ ++ σ).length := by
    simp; omega
  have hl₁ {τ : List (Char × Nat)} : d + σ.length + (τ.length + 1) = d + ((τ ++ σ).length + 1) := by
    simp; omega
  induction h₂
  case nil => exact h₁
  case enter hm ih => exact hl₁ ▸ .enter ih (hl ▸ hm)
  case leave ih => exact hl₁ ▸ .leave ih
  case other he _ ih => exact hl ▸ .other he ih

variable {d limit : Nat} {ms ns : List Mark} {σ τ : List (Char × Nat)} {b : Char}

-- At any time before, the brackets which were open then have been in order.
theorem Nests.of_suffix (h : Nests d limit ms σ) (hn : ns <:+ ms) : ∃ τ, Nests d limit ns τ := by
  induction h
  case nil => exact ⟨[], List.suffix_nil.mp hn ▸ .nil⟩
  case enter hm hd ih =>
    cases List.suffix_cons_iff.mp hn
    case inl he => exact ⟨_, he ▸ hm.enter hd⟩
    case inr hn => exact ih hn
  case leave hm ih =>
    cases List.suffix_cons_iff.mp hn
    case inl he => exact ⟨_, he ▸ hm.leave⟩
    case inr hn => exact ih hn
  case other he hm ih =>
    cases List.suffix_cons_iff.mp hn
    case inl hs => exact ⟨_, hs ▸ hm.other he⟩
    case inr hn => exact ih hn

theorem Nests.length_le (h : Nests d limit ms σ) (hd : d ≤ limit) : d + σ.length ≤ limit := by
  induction h
  case nil   => exact hd
  case enter => rw [List.length_cons]; omega
  case leave ih => rw [List.length_cons] at ih; omega
  case other ih => exact ih

theorem Nests.depth_le (h : Nests d limit ms σ) (hd : d ≤ limit) : ∀ m ∈ ms, m.depth ≤ limit := by
  induction h
  case nil => nofun
  case enter hl ih => exact List.forall_mem_cons.mpr ⟨hl, ih⟩
  case leave hm ih => exact List.forall_mem_cons.mpr ⟨hm.length_le hd, ih⟩
  case other hm ih => exact List.forall_mem_cons.mpr ⟨hm.length_le hd, ih⟩

-- There is always a level to leave.
theorem Nests.leave_pos (h : Nests d limit ms σ) : ∀ m ∈ ms, m.event = .leave b → 0 < m.depth := by
  induction h
  case nil => nofun
  case enter ih => exact List.forall_mem_cons.mpr ⟨nofun, ih⟩
  case leave ih => exact List.forall_mem_cons.mpr ⟨fun _ => Nat.lt_add_left _ (Nat.succ_pos _), ih⟩
  case other he _ ih =>
    refine List.forall_mem_cons.mpr ⟨fun h => ?_, ih⟩
    cases h
    exact absurd trivial he

-- Only parentheses and brackets are open if no other ones were entered.
theorem Nests.bracket_of_mem {c₀ : Cursor} (h : Nests d limit ms σ)
    (hm : ∀ m ∈ ms, m.event.Holds c₀) : ∀ x ∈ σ, x.1 = '(' ∨ x.1 = '[' := by
  induction h
  case nil => nofun
  case enter ih =>
    have ⟨he, hm⟩ := List.forall_mem_cons.mp hm
    exact List.forall_mem_cons.mpr ⟨he.1, ih hm⟩
  case leave ih => exact fun x hx => ih (List.forall_mem_cons.mp hm).2 x (List.mem_cons_of_mem _ hx)
  case other ih => exact ih (List.forall_mem_cons.mp hm).2

-- What has been entered has either been left or is open.
theorem Nests.entered_eq (h : Nests d limit ms σ) :
    Mark.entered b ms = Mark.left b ms + σ.countP (·.1 = b) := by
  induction h
  case nil => rfl
  case enter ih =>
    simp [Mark.entered, Mark.left, List.countP_cons] at ih ⊢
    omega
  case leave ih =>
    simp [Mark.entered, Mark.left, List.countP_cons] at ih ⊢
    omega
  case other e he _ ih =>
    cases e
    case enter | leave => exact absurd trivial he
    all_goals simpa [Mark.entered, Mark.left] using ih

theorem Nests.length_eq {c₀ : Cursor} (h : Nests d limit ms σ) (hm : ∀ m ∈ ms, m.event.Holds c₀) :
    σ.length + (Mark.left '(' ms + Mark.left '[' ms) =
      Mark.entered '(' ms + Mark.entered '[' ms := by
  have hb : σ.countP (·.1 = '[') = σ.countP (¬·.1 = '(') := by
    refine List.countP_congr fun x hx => ?_
    cases h.bracket_of_mem hm x hx <;> simp_all
  have hl : σ.length = σ.countP (·.1 = '(') + σ.countP (¬·.1 = '(') := by
    simpa using List.length_eq_countP_add_countP (fun x : Char × Nat => x.1 = '(')
  rw [h.entered_eq, h.entered_eq, hb]
  omega

-- What lies between two states if `ms` was marked on the way. The reader comes with the means for
-- `had` rounds, and goes with the means for `has` rounds. Each byte which it consumes pays for one
-- round, and each loop brings the means for its last round, in which nothing has to be consumed.
structure Passage (c₀ : Cursor) (limit had has : Nat) (ms : List Mark) (σ : List (Char × Nat))
    (s s' : State) : Prop where
  forward  : s.cursor ≤ s'.cursor
  advances : had < has → s.cursor < s'.cursor
  depth    : s'.depth = s.depth + σ.length
  nests    : Nests s.depth limit ms σ
  holds    : ∀ m ∈ ms, m.event.Holds c₀
  paid     : Mark.rounds ms + has + size s'.cursor.rest ≤
    size s.cursor.rest + Mark.loops ms + had

namespace Passage

variable {c₀ : Cursor} {limit o o' v w : Nat} {ms ns : List Mark} {σ τ : List (Char × Nat)}
variable {s s₁ s' : State} {e : Event}

theorem trans (h₁ : Passage c₀ limit o v ms σ s s₁) (h₂ : Passage c₀ limit v w ns τ s₁ s') :
    Passage c₀ limit o w (ns ++ ms) (τ ++ σ) s s' where
  forward  := le_trans h₁.forward h₂.forward
  advances h := by
    by_cases hv : o < v
    case pos => exact lt_of_lt_of_le (h₁.advances hv) h₂.forward
    case neg => exact lt_of_le_of_lt h₁.forward (h₂.advances (by omega))
  depth    := by simp [h₁.depth, h₂.depth]; omega
  nests    := h₁.nests.append (h₁.depth ▸ h₂.nests)
  holds    := List.forall_mem_append.mpr ⟨h₂.holds, h₁.holds⟩
  paid     := by
    have := h₁.paid
    have := h₂.paid
    simp only [Mark.rounds_append, Mark.loops_append]
    omega

theorem mono (h : Passage c₀ limit o v ms σ s s') (hv : w ≤ v) :
    Passage c₀ limit o w ms σ s s' :=
  { h with
    advances := fun hw => h.advances (by omega)
    paid     := by
      have := h.paid
      omega }

-- A mark which does not change the level may cost a round, or bring one.
theorem behind (h : Passage c₀ limit o' w ms σ s s') (hl : ¬e.ChangesLevel) (he : e.Holds c₀)
    (ho : Mark.rounds [⟨e, s.depth⟩] + o' ≤ Mark.loops [⟨e, s.depth⟩] + o) (hw : o < w → o' < w) :
    Passage c₀ limit o w (ms ++ [⟨e, s.depth⟩]) σ s s' where
  forward  := h.forward
  advances := h.advances ∘ hw
  depth    := h.depth
  nests    := by
    have hn : Nests s.depth limit [⟨e, s.depth⟩] [] := .other hl .nil
    simpa using hn.append h.nests
  holds    := List.forall_mem_append.mpr ⟨h.holds, by simpa using he⟩
  paid     := by
    have := h.paid
    simp only [Mark.rounds_append, Mark.loops_append]
    omega

-- Without marks at most one round is paid for, by what is consumed.
theorem silent (hc : s.cursor ≤ s'.cursor) (hd : s'.depth = s.depth) (hw : w ≤ o + 1)
    (ho : o < w → s.cursor < s'.cursor) : Passage c₀ limit o w [] [] s s' where
  forward  := hc
  advances := ho
  depth    := hd
  nests    := .nil
  holds    := nofun
  paid     := by
    have hs : w + size s'.cursor.rest ≤ size s.cursor.rest + o := by
      by_cases h : o < w
      case pos =>
        have := size_lt_of_lt (ho h)
        omega
      case neg =>
        have := size_le_of_le hc
        omega
    simp [Mark.rounds, Mark.loops]
    omega

theorem refl (c₀ : Cursor) (limit o : Nat) (s : State) : Passage c₀ limit o o [] [] s s :=
  silent le_refl rfl (Nat.le_succ o) fun h => absurd h (Nat.lt_irrefl o)

theorem enter (hd : s.depth < limit) (he : (Event.enter b n).Holds c₀) :
    Passage c₀ limit o o [⟨.enter b n, s.depth + 1⟩] [(b, n)] s { s with depth := s.depth + 1 } where
  forward  := le_refl
  advances := fun h => absurd h (Nat.lt_irrefl o)
  depth    := rfl
  nests    := .enter .nil hd
  holds    := by simpa using he
  paid     := by simp [Mark.rounds, Mark.loops]; omega

theorem leave (h : Passage c₀ limit o w ms [(b, n)] s s') :
    Passage c₀ limit o w (⟨.leave b, s'.depth⟩ :: ms) [] s { s' with depth := s'.depth - 1 } where
  forward  := h.forward
  advances := h.advances
  depth    := by simp [h.depth]
  nests    := h.depth ▸ .leave h.nests
  holds    := List.forall_mem_cons.mpr ⟨trivial, h.holds⟩
  paid     := by simpa [Mark.rounds, Mark.loops] using h.paid

end Passage

namespace Tracer

variable {c₀ : Cursor} {fuel n levels limit o w : Nat} {t : Tracer} {s s' : State}
variable {ms ns : List Mark}

-- The tracer in another state, with marks that were added on the way.
def after (t : Tracer) (s : State) (ms : List Mark) : Tracer where
  maxDepth := t.maxDepth
  state    := s
  marks    := ms ++ t.marks

@[simp]
theorem after_after : (t.after s ms).after s' ns = t.after s' (ns ++ ms) := by
  simp [after]

@[simp]
theorem state_after : (t.after s ms).state = s :=
  rfl

@[simp]
theorem maxDepth_after : (t.after s ms).maxDepth = t.maxDepth :=
  rfl

-- The fuel is enough for what is left of the text, and `levels` more levels may be entered.
structure Ready (c₀ : Cursor) (fuel levels : Nat) (t : Tracer) : Prop where
  behind : c₀ ≤ t.state.cursor
  fuel   : size t.state.cursor.rest < fuel
  levels : t.maxDepth = t.state.depth + levels

namespace Ready

theorem after (h : t.Ready c₀ fuel levels) (hp : Passage c₀ limit o w ms [] t.state s) :
    (t.after s ms).Ready c₀ fuel levels where
  behind := le_trans h.behind hp.forward
  fuel   := Nat.lt_of_le_of_lt (size_le_of_le hp.forward) h.fuel
  levels := by simpa [hp.depth] using h.levels

theorem marked (h : t.Ready c₀ fuel levels) : (t.after t.state ms).Ready c₀ fuel levels where
  behind := h.behind
  fuel   := h.fuel
  levels := h.levels

theorem mono (h : t.Ready c₀ n levels) (hn : n ≤ fuel) : t.Ready c₀ fuel levels :=
  { h with fuel := Nat.lt_of_lt_of_le h.fuel hn }

-- What is consumed need not be paid for any more.
theorem of_lt {t' : Tracer} (h : t.Ready c₀ (fuel + 1) l) (hp : t'.Ready c₀ n levels)
    (hl : t.state.cursor < t'.state.cursor) : t'.Ready c₀ fuel levels :=
  { hp with
    fuel := by
      have := size_lt_of_lt hl
      have := h.fuel
      omega }

end Ready

end Tracer

end SearchQuery
