import SearchQuery.Proofs.Accounting
import SearchQuery.Proofs.Preservation

namespace SearchQuery

open Text Cursor Tracer

namespace Parser

-- The second state is ahead of the first one, on the same level.
structure Ahead (s s' : State) : Prop where
  forward : s.cursor ≤ s'.cursor
  depth   : s'.depth = s.depth

theorem steady_ahead : Steady Ahead where
  refl _      := ⟨le_refl, rfl⟩
  trans h₁ h₂ := ⟨le_trans h₁.forward h₂.forward, h₂.depth.trans h₁.depth⟩
  moved _ _ h := ⟨h, rfl⟩
  noted _ _ _ := ⟨le_refl, rfl⟩

-- `p` does rounds until one is done for good.
def Repeats (round : σ → Parser (ForInStep σ)) (p : σ → Parser σ) : Prop :=
  ∀ y, p y = round y >>= fun
    | .done z  => return z
    | .yield z => p z

-- What is read one level deeper.
theorem level_apply {p : Parser α} {s : State} :
    (do
      enter
      let a ← p
      leave
      return a : Parser α) s =
    match p { s with depth := s.depth + 1 } with
    | .ok a s'    => .ok a { s' with depth := s'.depth - 1 }
    | .error e s' => .error e s' := by
  have hs : enter s = .ok () { s with depth := s.depth + 1 } := rfl
  simp only [bind_apply, hs]
  cases p { s with depth := s.depth + 1 } <;> rfl

end Parser

namespace Tracing

variable {α β σ : Type} {c₀ : Cursor} {fuel n levels o : Nat} {t t' : Tracer} {a : α}
variable {x : Tracing α} {g : α → Tracing β} {p : Parser α} {f : α → Parser β} {k : α → β}
variable {v v' : α → Nat} {w : β → Nat} {b : Char} {e : Event} {what : Stretch}

@[simp]
theorem pure_apply : (Pure.pure a : Tracing α) t = .ok a t :=
  rfl

theorem bind_of_ok (h : x t = .ok a t') : (x >>= g) t = g a t' := by
  simp [Bind.bind, EStateM.bind, h]

theorem bind_of_error {e : Halt} (h : x t = .error e t') : (x >>= g) t = .error e t' := by
  simp [Bind.bind, EStateM.bind, h]

theorem enter_of_lt (h : t.state.depth < t.maxDepth) : enter b n t = .ok ()
    (t.after { t.state with depth := t.state.depth + 1 } [⟨.enter b n, t.state.depth + 1⟩]) := by
  have hg : (get : Tracing Tracer) t = .ok t t := rfl
  rw [enter, bind_of_ok hg, if_neg (by omega)]
  rfl

theorem enter_of_le (h : t.maxDepth ≤ t.state.depth) :
    enter b n t = .error (.refused ⟨n, .shallowerNesting⟩) t := by
  have hg : (get : Tracing Tracer) t = .ok t t := rfl
  rw [enter, bind_of_ok hg, if_pos h]
  rfl

theorem leave_apply : leave b t = .ok ()
    (t.after { t.state with depth := t.state.depth - 1 } [⟨.leave b, t.state.depth⟩]) :=
  rfl

-- At `t` the reader does what the parser does, and comes with the means for `o` rounds. After its
-- success the means for `v a` rounds are there.
structure Follows (c₀ : Cursor) (o : Nat) (v : α → Nat) (x : Tracing α) (p : Parser α)
    (t : Tracer) : Prop where
  ok    : ∀ {a s}, p t.state = .ok a s →
    ∃ ms, x t = .ok a (t.after s ms) ∧ Passage c₀ t.maxDepth o (v a) ms [] t.state s
  error : ∀ {e s}, p t.state = .error e s →
    ∃ ms σ, x t = .error (.refused e) (t.after s ms) ∧ Passage c₀ t.maxDepth o 0 ms σ t.state s

namespace Follows

theorem mono (h : Follows c₀ o v x p t) (hv : ∀ a, v' a ≤ v a) : Follows c₀ o v' x p t where
  ok hp := by
    obtain ⟨ms, hx, hm⟩ := h.ok hp
    exact ⟨ms, hx, hm.mono (hv _)⟩
  error := h.error

theorem pure (hv : v a ≤ o) : Follows c₀ o v (Pure.pure a) (Pure.pure a) t where
  ok := by
    rintro _ _ ⟨⟩
    exact ⟨[], rfl, (Passage.refl ..).mono hv⟩
  error := nofun

theorem refuse {e : ParseError} : Follows c₀ o v (refuse e) (throw e) t where
  ok := nofun
  error := by
    rintro _ _ ⟨⟩
    exact ⟨[], [], rfl, (Passage.refl ..).mono (Nat.zero_le o)⟩

-- What follows knows what was read, and if it was more than nothing.
theorem bind (hr : t.Ready c₀ fuel levels) (h : Follows c₀ o v x p t)
    (hf : ∀ {a t'}, t'.Ready c₀ fuel levels → p t.state = .ok a t'.state →
      (o < v a → t.state.cursor < t'.state.cursor) → Follows c₀ (v a) w (g a) (f a) t') :
    Follows c₀ o w (x >>= g) (p >>= f) t where
  ok hp := by
    obtain ⟨a, s₁, hp, hq⟩ := Parser.bind_eq_ok.mp hp
    obtain ⟨ms, hx, hm⟩ := h.ok hp
    obtain ⟨ns, hg, hn⟩ := (hf (hr.after hm) hp hm.advances).ok hq
    exact ⟨ns ++ ms, by rw [bind_of_ok hx, hg, after_after], hm.trans hn⟩
  error hp := by
    rw [Parser.bind_apply] at hp
    split at hp
    case h_1 a s₁ hq =>
      obtain ⟨ms, hx, hm⟩ := h.ok hq
      obtain ⟨ns, σ, hg, hn⟩ := (hf (hr.after hm) hq hm.advances).error hp
      exact ⟨ns ++ ms, σ ++ [], by rw [bind_of_ok hx, hg, after_after], hm.trans hn⟩
    case h_2 hq =>
      cases hp
      obtain ⟨ms, σ, hx, hm⟩ := h.error hq
      exact ⟨ms, σ, bind_of_error hx, hm⟩

theorem map (hr : t.Ready c₀ fuel levels) (h : Follows c₀ o v x p t)
    (hv : ∀ a, w (k a) ≤ v a) : Follows c₀ o w (k <$> x) (k <$> p) t := by
  rw [← bind_pure_comp, ← bind_pure_comp]
  exact h.bind hr fun _ _ _ => .pure (hv _)

-- Looking around leaves no mark.
theorem look {g : Cursor → Tracing α} (h : Follows c₀ o v (g t.state.cursor) p t) :
    Follows c₀ o v (step Parser.here >>= g) p t where
  ok    := h.ok
  error := h.error

theorem here {g : Cursor → Tracing α} {f : Cursor → Parser α}
    (h : Follows c₀ o v (g t.state.cursor) (f t.state.cursor) t) :
    Follows c₀ o v (step Parser.here >>= g) (Parser.here >>= f) t where
  ok    := h.ok
  error := h.error

-- A step of the parser, which may pay for one round by what it consumes.
theorem step_of (hp : Parser.Keeps Parser.Ahead p)
    (hv : ∀ {a s}, p t.state = .ok a s → v a ≤ o + 1 ∧ (o < v a → t.state.cursor < s.cursor)) :
    Follows c₀ o v (step p) p t where
  ok h := by
    obtain ⟨hc, hd⟩ := hp.ok h
    obtain ⟨hw, ho⟩ := hv h
    exact ⟨[], by simp [step, h, Tracer.after], .silent hc hd hw ho⟩
  error h := by
    obtain ⟨hc, hd⟩ := hp.error h
    have hn : ¬o < 0 := Nat.not_lt_zero o
    exact ⟨[], [], by simp [step, h, Tracer.after], .silent hc hd (Nat.zero_le _) (absurd · hn)⟩

theorem step (hp : Parser.Keeps Parser.Ahead p) :
    Follows c₀ o (fun _ => o) (step p) p t :=
  step_of hp fun _ => ⟨Nat.le_succ o, fun h => absurd h (Nat.lt_irrefl o)⟩

theorem bind_step (hr : t.Ready c₀ fuel levels)
    (hp : Parser.Keeps Parser.Ahead p)
    (hf : ∀ {a t'}, t'.Ready c₀ fuel levels → Follows c₀ o w (g a) (f a) t') :
    Follows c₀ o w (Tracing.step p >>= g) (p >>= f) t :=
  (step hp).bind hr fun hr _ _ => hf hr

theorem step_advances (ha : p.Advances)
    (hp : Parser.Keeps Parser.Ahead p) :
    Follows c₀ o (fun _ => o + 1) (Tracing.step p) p t :=
  step_of hp fun h => ⟨Nat.le_refl _, fun _ => ha h⟩

-- A token pays for a round.
theorem take? {find : Cursor → Option (α × Cursor)} (h : ∀ {c a c'}, find c = some (a, c') → c < c') :
    Follows c₀ o (fun a => a.elim o fun _ => o + 1) (Tracing.step (Parser.take? find))
      (Parser.take? find) t := by
  refine step_of (Parser.steady_ahead.take? h) fun ht => ?_
  unfold Parser.take? at ht
  split at ht <;> cases ht
  case h_1    => exact ⟨Nat.le_succ o, fun h => absurd h (Nat.lt_irrefl o)⟩
  case h_2 hf => exact ⟨Nat.le_refl _, fun _ => h hf⟩

theorem note {note : Note} :
    Follows c₀ o (fun _ => o) (Tracing.step (Parser.note note)) (Parser.note note) t :=
  step fun _ => ⟨le_refl, rfl⟩

-- A mark is left in front of what follows.
theorem mark {x : Unit → Tracing α} (hl : ¬e.ChangesLevel) (he : e.Holds c₀)
    (ho : Mark.rounds [⟨e, t.state.depth⟩] + n ≤ Mark.loops [⟨e, t.state.depth⟩] + o)
    (hv : ∀ a, o < v a → n < v a)
    (h : Follows c₀ n v (x ()) p (t.after t.state [⟨e, t.state.depth⟩])) :
    Follows c₀ o v (Tracing.mark e >>= x) p t where
  ok hp := by
    obtain ⟨ms, hx, hm⟩ := h.ok hp
    exact ⟨_, by rw [← after_after]; exact hx, hm.behind hl he ho (hv _)⟩
  error hp := by
    obtain ⟨ms, σ, hx, hm⟩ := h.error hp
    exact ⟨_, σ, by rw [← after_after]; exact hx, hm.behind hl he ho nofun⟩

theorem done {x : Unit → Tracing α} {i j : Nat} (hij : i < j)
    (h : Follows c₀ o v (x ()) p (t.after t.state [⟨.done what i j, t.state.depth⟩])) :
    Follows c₀ o v (Tracing.mark (.done what i j) >>= x) p t :=
  mark (n := o) not_false hij (by simp [Mark.rounds, Mark.loops]) (fun _ => id) h

-- Whatever is measured pays for a round.
theorem measured (hr : t.Ready c₀ fuel levels) (h : Follows c₀ o (fun _ => o + 1) x p t) :
    Follows c₀ o (fun _ => o + 1) (measured what x) p t := by
  rw [← bind_pure p]
  refine .look <| h.bind hr fun _ _ hc => .look <| .done ?_ <| .pure (Nat.le_refl _)
  exact offset_lt_of_lt (hc (Nat.lt_succ_self o))

-- One level deeper there is one level less to enter.
theorem level (hr : t.Ready c₀ fuel (levels + 1)) (he : (Event.enter b n).Holds c₀)
    (h : ∀ {t'}, t'.Ready c₀ fuel levels → t'.state.cursor = t.state.cursor →
      Follows c₀ o v x p t') :
    Follows c₀ o v
      (do
        enter b n
        let a ← x
        leave b
        return a)
      (do
        Parser.enter
        let a ← p
        Parser.leave
        return a) t := by
  have hd : t.state.depth < t.maxDepth := by
    have := hr.levels
    omega
  let t₁ := t.after { t.state with depth := t.state.depth + 1 } [⟨.enter b n, t.state.depth + 1⟩]
  have hr₁ : t₁.Ready c₀ fuel levels := ⟨hr.behind, hr.fuel, by simp [t₁, hr.levels]; omega⟩
  constructor
  case ok =>
    intro a s hp
    rw [Parser.level_apply] at hp
    split at hp <;> cases hp
    case h_1 hp =>
      obtain ⟨ms, hx, hm⟩ := (h hr₁ rfl).ok hp
      refine ⟨_, ?_, ((Passage.enter hd he).trans hm).leave⟩
      rw [bind_of_ok (enter_of_lt hd), bind_of_ok hx, bind_of_ok leave_apply]
      simp [t₁]
  case error =>
    intro e s hp
    rw [Parser.level_apply] at hp
    split at hp <;> cases hp
    case h_2 hp =>
      obtain ⟨ms, σ, hx, hm⟩ := (h hr₁ rfl).error hp
      refine ⟨_, _, ?_, (Passage.enter hd he).trans hm⟩
      rw [bind_of_ok (enter_of_lt hd), bind_of_error hx]
      simp [t₁]

-- A level which must not be entered is refused where its bracket stands.
theorem bracketed_refuse (hr : t.Ready c₀ fuel 0) :
    Follows c₀ o v (bracketed b missing x) (Parser.refuseLevel b missing) t := by
  refine .here <| .bind_step hr Parser.steady_ahead.expect fun hr => ⟨nofun, ?_⟩
  rintro _ _ ⟨⟩
  exact ⟨[], [], bind_of_error (enter_of_le hr.levels.le), (Passage.refl ..).mono (Nat.zero_le o)⟩

theorem bracketed (hr : t.Ready c₀ fuel (levels + 1)) (hb : b = '(' ∨ b = '[')
    (h : ∀ {t'}, t'.Ready c₀ fuel levels → t.state.cursor < t'.state.cursor →
      Follows c₀ (o + 1) v x p t') :
    Follows c₀ o v (bracketed b missing x)
      (do
        Parser.expect [b] missing
        Parser.enter
        let a ← p
        Parser.leave
        return a) t := by
  have ha : (Parser.expect [b] missing).Advances := Parser.expect_advances (by simp)
  refine .look <| .bind hr (.step_advances ha Parser.steady_ahead.expect) fun hr₁ hp _ => ?_
  have ⟨⟨_, hs⟩, _⟩ := Parser.expect_eq_ok.mp hp
  refine .level hr₁ ⟨hb, _, hr.behind, rfl, by simp [peek, ← hs]⟩ fun hr₂ hc => h hr₂ ?_
  exact hc ▸ ha hp

end Follows

section Loop

variable {round : σ → Tracing (ForInStep σ)} {r : σ → Parser (ForInStep σ)} {q : σ → Parser σ}

-- The means that are left when a round is over.
def means (o : Nat) : ForInStep σ → Nat
  | .done _  => o
  | .yield _ => o + 1

-- A round which is not the last one consumes something, so the fuel lasts until the last one.
theorem follows_rounds (hq : Parser.Repeats r q)
    (hb : ∀ {y t}, t.Ready c₀ fuel levels → Follows c₀ o (means o) (round y) (r y) t)
    (hr : t.Ready c₀ n levels) (hn : n ≤ fuel) (y : σ) :
    Follows c₀ (o + 1) (fun _ => o) (rounds round n y) (q y) t := by
  induction n generalizing t y
  case zero => exact absurd hr.fuel (Nat.not_lt_zero _)
  case succ n ih =>
    rw [hq, rounds]
    refine .look <| .mark (n := o) not_false trivial ?_ (fun _ h => by omega) ?_
    case refine_1 => simp [Mark.rounds, Mark.loops, Nat.add_comm]
    case refine_2 =>
      refine .bind (hr.mono hn).marked (hb (hr.mono hn).marked) fun {z t'} hr' _ hc => ?_
      cases z
      case done => exact .pure (Nat.le_refl o)
      case yield =>
        have hl : t.state.cursor < t'.state.cursor := hc (Nat.lt_succ_self o)
        exact .look <| .done (offset_lt_of_lt hl) <| ih (hr.of_lt hr' hl).marked (by omega) _

theorem follows_loop (hq : Parser.Repeats r q)
    (hb : ∀ {y t}, t.Ready c₀ fuel levels → Follows c₀ o (means o) (round y) (r y) t)
    (hr : t.Ready c₀ fuel levels) (y : σ) :
    Follows c₀ o (fun _ => o) (loop round fuel y) (q y) t := by
  refine .mark (n := o + 1) not_false trivial ?_ (fun _ h => absurd h (Nat.lt_irrefl o)) ?_
  case refine_1 => simp [Mark.rounds, Mark.loops, Nat.add_comm]
  case refine_2 => exact follows_rounds hq hb hr.marked (Nat.le_refl fuel) y

end Loop

end Tracing

end SearchQuery
