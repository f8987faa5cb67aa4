import SearchQuery.Fragment
import SearchQuery.ParseError

namespace SearchQuery

-- What a parser remarks on its way.
inductive Note
  | junction (j : Junction) (offset : Nat)
  | typeFilter (value : String)
  | facet (name : String) (filtered : Bool)
  | nestedFilter (path : String)
  | fragment (f : Fragment)

-- `depth` counts the groups and brackets that are open, and `notes` holds the latest note first.
structure State where
  cursor : Cursor
  depth  : Nat
  notes  : List Note

def State.start (text : List Char) : State where
  cursor := .start text
  depth  := 0
  notes  := []

-- A parser which fails leaves its state where it stopped.
abbrev Parser := EStateM ParseError State

namespace Parser

-- Success never moves the cursor back.
def Forward (p : Parser α) : Prop :=
  ∀ ⦃s a s'⦄, p s = .ok a s' → s.cursor ≤ s'.cursor

-- Success moves the cursor forward by at least one character.
def Advances (p : Parser α) : Prop :=
  ∀ ⦃s a s'⦄, p s = .ok a s' → s.cursor < s'.cursor

variable {p : Parser α} {f : α → Parser β} {g : α → β}

theorem Advances.forward (h : p.Advances) : p.Forward :=
  fun _ _ _ hp => Cursor.le_of_lt (h hp)

theorem bind_eq_ok : (p >>= f) s = .ok b s' ↔ ∃ a s₁, p s = .ok a s₁ ∧ f a s₁ = .ok b s' := by
  simp only [bind, EStateM.bind]
  cases p s <;> simp [and_assoc]

theorem map_eq_ok : (g <$> p) s = .ok b s' ↔ ∃ a, p s = .ok a s' ∧ g a = b := by
  simp only [Functor.map, EStateM.map]
  cases p s <;> simp
  grind

theorem Forward.pure : Forward (Pure.pure a : Parser α) := by
  rintro s a s' ⟨⟩
  exact Cursor.le_refl

theorem Forward.bind (hp : p.Forward) (hf : ∀ a, (f a).Forward) : (p >>= f).Forward := by
  intro _ _ _ h
  have ⟨a, s₁, h₁, h₂⟩ := bind_eq_ok.mp h
  exact Cursor.le_trans (hp h₁) (hf a h₂)

theorem Forward.map (hp : p.Forward) : (g <$> p).Forward := by
  intro _ _ _ h
  have ⟨a, h, _⟩ := map_eq_ok.mp h
  exact hp h

theorem Advances.throw : Advances (throw e : Parser α) :=
  nofun

theorem Advances.map (hp : p.Advances) : (g <$> p).Advances := by
  intro _ _ _ h
  have ⟨a, h, _⟩ := map_eq_ok.mp h
  exact hp h

theorem Advances.bind_forward (hp : p.Advances) (hf : ∀ a, (f a).Forward) :
    (p >>= f).Advances := by
  intro _ _ _ h
  have ⟨a, s₁, h₁, h₂⟩ := bind_eq_ok.mp h
  exact Cursor.lt_of_lt_of_le (hp h₁) (hf a h₂)

theorem Forward.bind_advances (hp : p.Forward) (hf : ∀ a, (f a).Advances) :
    (p >>= f).Advances := by
  intro _ _ _ h
  have ⟨a, s₁, h₁, h₂⟩ := bind_eq_ok.mp h
  exact Cursor.lt_of_le_of_lt (hp h₁) (hf a h₂)

def here : Parser Cursor := do
  return (← get).cursor

def note (n : Note) : Parser Unit :=
  modify fun s => { s with notes := n :: s.notes }

def enter : Parser Unit :=
  modify fun s => { s with depth := s.depth + 1 }

def leave : Parser Unit :=
  modify fun s => { s with depth := s.depth - 1 }

def skipBlank : Parser Unit :=
  modify fun s => { s with cursor := s.cursor.skipBlank }

-- Consumes what `find` finds at the cursor, if it finds anything.
def take? (find : Cursor → Option (α × Cursor)) : Parser (Option α) := fun s =>
  match find s.cursor with
  | none        => .ok none s
  | some (a, c) => .ok (some a) { s with cursor := c }

-- Consumes a literal if the text continues with it.
def eat (literal : List Char) : Parser Bool := fun s =>
  match s.cursor.eat? literal with
  | none   => .ok false s
  | some c => .ok true { s with cursor := c }

-- Consumes a literal with which the text has to continue.
def expect (literal : List Char) (missing : Expected) : Parser Unit := fun s =>
  match s.cursor.eat? literal with
  | none   => .error ⟨s.cursor.offset, missing⟩ s
  | some c => .ok () { s with cursor := c }

-- Consumes a character which opens a level of nesting, and refuses to enter the level.
def refuseLevel (char : Char) (missing : Expected) : Parser α := do
  let c ← here
  expect [char] missing
  throw ⟨c.offset, .shallowerNesting⟩

theorem here_forward : here.Forward := by
  rintro s _ _ ⟨⟩
  exact Cursor.le_refl

theorem note_forward : (note n).Forward := by
  rintro s _ _ ⟨⟩
  exact Cursor.le_refl

theorem enter_forward : enter.Forward := by
  rintro s _ _ ⟨⟩
  exact Cursor.le_refl

theorem leave_forward : leave.Forward := by
  rintro s _ _ ⟨⟩
  exact Cursor.le_refl

theorem skipBlank_forward : skipBlank.Forward := by
  rintro s _ _ ⟨⟩
  exact Cursor.le_skipBlank

variable {find : Cursor → Option (α × Cursor)} {k : Option α → Parser β}

theorem take?_forward (h : ∀ {c a c'}, find c = some (a, c') → c ≤ c') :
    (take? find).Forward := by
  intro s _ _ ht
  unfold take? at ht
  split at ht <;> cases ht
  case h_1   => exact Cursor.le_refl
  case h_2 hf => exact h hf

-- If a token is found then it is what advances the parser. Otherwise the rest has to.
theorem take?_bind_advances (h : ∀ {c a c'}, find c = some (a, c') → c < c')
    (hn : (k none).Advances) (hs : ∀ a, (k (some a)).Forward) : (take? find >>= k).Advances := by
  intro s _ _ hb
  have ⟨a, s₁, ht, hk⟩ := bind_eq_ok.mp hb
  unfold take? at ht
  split at ht <;> cases ht
  case h_1    => exact hn hk
  case h_2 hf => exact Cursor.lt_of_lt_of_le (h hf) (hs _ hk)

theorem eat_forward : (eat literal).Forward := by
  intro s _ _ h
  unfold eat at h
  split at h <;> cases h
  case h_1    => exact Cursor.le_refl
  case h_2 he => exact Cursor.le_of_eat? he

theorem expect_eq_ok :
    expect literal missing s = .ok u s' ↔
      literal <+: s.cursor.rest ∧ { s with cursor := s.cursor.after literal } = s' := by
  unfold expect
  split
  case h_1 h => simp_all [Cursor.eat?]
  case h_2 h => simp [Cursor.eat?_eq_some.mp h]

theorem expect_advances (n : literal ≠ []) : (expect literal missing).Advances := by
  intro _ _ _ h
  have ⟨h, he⟩ := expect_eq_ok.mp h
  exact he ▸ Cursor.lt_after h n

theorem refuseLevel_advances : (refuseLevel char missing : Parser α).Advances :=
  here_forward.bind_advances fun _ =>
    (expect_advances (by simp)).bind_forward fun _ => Advances.throw.forward

end Parser

-- A parser whose success consumes something.
structure Advancing (α : Type) where
  run      : Parser α
  advances : run.Advances

end SearchQuery
