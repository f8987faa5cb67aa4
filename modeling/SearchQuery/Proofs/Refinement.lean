import SearchQuery.Scanner
import SearchQuery.Proofs.Preservation

namespace SearchQuery

open Text Cursor

namespace Session

variable {s t : Session} {c : Cursor} {α β : Type} {p : Parser α}

-- The session as it is known to a scanner.
def scanner (s : Session) : Scanner where
  input    := s.input
  position := s.cursor.offset
  maxDepth := s.maxDepth
  depth    := s.state.depth

-- The cursor is a place in the text of the session.
def Placed (s : Session) : Prop :=
  Cursor.start s.input ≤ s.cursor

-- Eats a literal if the text goes on with it.
def eat (literal : List Char) (s : Session) : Bool × Session :=
  match s.cursor.eat? literal with
  | some c => (true, s.moveTo c)
  | none   => (false, s)

@[simp]
theorem input_scanner : s.scanner.input = s.input :=
  rfl

@[simp]
theorem position_scanner : s.scanner.position = s.cursor.offset :=
  rfl

@[simp]
theorem maxDepth_scanner : s.scanner.maxDepth = s.maxDepth :=
  rfl

@[simp]
theorem depth_scanner : s.scanner.depth = s.state.depth :=
  rfl

@[simp]
theorem cursor_moveTo : (s.moveTo c).cursor = c :=
  rfl

theorem Placed.exists_before (h : s.Placed) :
    ∃ u, s.input = u ++ s.cursor.rest ∧ size u = s.cursor.offset := by
  obtain ⟨u, hu⟩ := h
  exact ⟨u, hu.rest, by simpa [Cursor.start] using hu.offset.symm⟩

-- There are at least as many bytes as characters.
theorem Placed.length_rest_lt (h : s.Placed) : s.cursor.rest.length < size s.input + 1 := by
  obtain ⟨u, hu, _⟩ := h.exists_before
  have := length_le_size s.cursor.rest
  rw [hu, size_append]
  omega

theorem Placed.moveTo (h : s.Placed) (hc : s.cursor ≤ c) : (s.moveTo c).Placed :=
  Cursor.le_trans h hc

end Session

namespace Scan

variable {s : Session} {p : Char → Bool} {u r cs : List Char} {w : Scanner} {α β : Type}

@[simp]
theorem bind_apply {x : Scan α} {f : α → Scan β} :
    (x >>= f) w = (x w).bind fun (a, w') => f a w' :=
  rfl

@[simp]
theorem pure_apply {a : α} : (pure a : Scan α) w = some (a, w) :=
  rfl

@[simp]
theorem map_apply {x : Scan α} {f : α → β} : (f <$> x) w = (x w).map fun (a, w') => (f a, w') := by
  simp only [Functor.map, StateT.map, bind, pure]
  cases x w <;> rfl

@[simp]
theorem get_apply : (get : Scan Scanner) w = some (w, w) :=
  rfl

@[simp]
theorem set_apply {v : Scanner} : (set v : Scan Unit) w = some ((), v) :=
  rfl

@[simp]
theorem lift_apply {x : Option α} : (liftM x : Scan α) w = x.map (·, w) := by
  cases x <;> rfl

@[simp]
theorem position_apply : position w = some (w.position, w) :=
  rfl

theorem rest_eq (h : s.Placed) : rest s.scanner = some (s.cursor.rest, s.scanner) := by
  obtain ⟨u, hu⟩ := h.exists_before
  have hb : behind? s.cursor.offset s.input = some s.cursor.rest :=
    behind?_eq_some_iff.mpr ⟨u, hu⟩
  simp [rest, hb]

theorem peek_eq (h : s.Placed) : peek s.scanner = some (s.cursor.peek, s.scanner) := by
  simp [peek, rest_eq h, Cursor.peek]

theorem atEnd_eq (h : s.Placed) : atEnd s.scanner = some (s.cursor.atEnd, s.scanner) := by
  obtain ⟨u, hu, hs⟩ := h.exists_before
  have hr : size s.cursor.rest = 0 ↔ s.cursor.atEnd := by
    rw [size_eq_zero_iff, Cursor.atEnd, List.isEmpty_iff]
  simp [atEnd, ← hs, hu, hr]

theorem advance_eq (s : Session) (u : List Char) :
    advance (size u) s.scanner = some ((), (s.moveTo (s.cursor.after u)).scanner) :=
  rfl

theorem endOfRun_eq (p : Char → Bool) (cs : List Char) : endOfRun p cs = size (cs.takeWhile p) := by
  induction cs
  case nil => rfl
  case cons c cs hi => cases hc : p c <;> simp [endOfRun, hc, hi]

theorem readWhile_eq (h : s.Placed) : readWhile p s.scanner =
    some (s.cursor.run p, (s.moveTo (s.cursor.after (s.cursor.run p))).scanner) := by
  have he : endOfRun p s.cursor.rest = size (s.cursor.run p) := endOfRun_eq ..
  have hb : before? (size (s.cursor.run p)) s.cursor.rest = some (s.cursor.run p) :=
    before?_eq_some_iff.mpr ⟨s.cursor.rest.dropWhile p, by simp [run], rfl⟩
  simp [readWhile, rest_eq h, he, advance_eq, hb]

theorem skipBlank_eq (h : s.Placed) : skipBlank s.scanner =
    some (s.cursor.atBlank, (s.moveTo s.cursor.skipBlank).scanner) := by
  have hb : (!(s.cursor.run isBlank).isEmpty) = s.cursor.atBlank := by
    cases hr : s.cursor.rest
    case nil => simp [run, atBlank, Cursor.peek, hr]
    case cons c _ => cases hc : isBlank c <;> simp [run, atBlank, Cursor.peek, hr, hc]
  simp [skipBlank, readWhile_eq h, hb, Cursor.skipBlank]

theorem eat_eq (h : s.Placed) : eat u s.scanner = some ((s.eat u).1, (s.eat u).2.scanner) := by
  by_cases hp : u <+: s.cursor.rest
  case pos =>
    have he := eat?_eq_some.mpr ⟨hp, rfl⟩
    simp [eat, rest_eq h, hp, advance_eq, Session.eat, he]
  case neg =>
    have he : s.cursor.eat? u = none := by simpa [eat?] using hp
    simp [eat, rest_eq h, hp, Session.eat, he]

theorem punct_eq (h : s.Placed) :
    punct c s.scanner = some ((s.eat [c]).1, (s.eat [c]).2.scanner) := by
  rw [← eat_eq h]
  have hp : s.cursor.peek = some c ↔ [c] <+: s.cursor.rest := by
    rw [Cursor.peek]
    cases s.cursor.rest <;> simp [eq_comm]
  by_cases hc : [c] <+: s.cursor.rest <;> simp [punct, eat, peek_eq h, rest_eq h, hp, hc, advance]

theorem word_eq (h : s.Placed) : word p s.scanner =
    some ((s.take? (span? · p)).1, (s.take? (span? · p)).2.scanner) := by
  by_cases hr : s.cursor.run p = []
  · have hn : (s.moveTo (s.cursor.after [])).scanner = s.scanner := rfl
    simp [word, readWhile_eq h, Session.take?, span?, hr, hn]
  · simp [word, readWhile_eq h, Session.take?, span?, hr]

theorem operator_eq (h : s.Placed) : operator s.scanner =
    some ((s.take? operator?).1, (s.take? operator?).2.scanner) := by
  cases ho : Operator.at? s.cursor.rest <;>
    simp [operator, rest_eq h, Session.take?, operator?, ho, advance_eq]

theorem spells_eq (k : Connector) (cs : List Char) (w : Scanner) :
    spells k cs w = some ((k.spelling? cs).isSome, w) := by
  by_cases hs : ∃ v r, cs = v ++ r ∧ k.Spelling v
  case pos =>
    obtain ⟨v, r, rfl, hv⟩ := hs
    have hb : before? k.chars.length (v ++ r) = some v :=
      before?_eq_some_iff.mpr ⟨r, rfl, hv.size_eq⟩
    have hr : behind? k.chars.length (v ++ r) = some r :=
      behind?_eq_some_iff.mpr ⟨v, rfl, hv.size_eq⟩
    have hk : v.map Char.toUpper = k.chars := hv
    have ht : (v ++ r).take k.chars.length = v := by rw [← hv.length_eq, List.take_left]
    have hd : (v ++ r).drop k.chars.length = r := by rw [← hv.length_eq, List.drop_left]
    cases hn : r.head?.all fun c => isBlank c || c = '(' || c = ')' <;>
      simp [spells, Connector.spelling?, hb, hr, hk, ht, hd, hn]
  case neg =>
    have hn : k.spelling? cs = none := by
      by_contra hn
      obtain ⟨v, hv⟩ := Option.ne_none_iff_exists'.mp hn
      obtain ⟨hv, r, hr, _⟩ := Connector.spelling?_eq_some_iff.mp hv
      exact hs ⟨v, r, hr, hv⟩
    cases hb : before? k.chars.length cs
    case none => simp [spells, hb, hn]
    case some v =>
      obtain ⟨r, hr, _⟩ := before?_eq_some_iff.mp hb
      have hk : v.map Char.toUpper ≠ k.chars := fun hk => hs ⟨v, r, hr, hk⟩
      simp [spells, hb, hn, hk]

theorem peekConnector_eq (h : s.Placed) : peekConnector s.scanner =
    some ((Connector.at? s.cursor.rest).map fun (k, v) => (k, size v), s.scanner) := by
  have hs {k : Connector} {v : List Char} (hk : k.spelling? s.cursor.rest = some v) :
      size v = k.chars.length :=
    (Connector.spelling?_eq_some_iff.mp hk).1.size_eq
  cases ha : Connector.and.spelling? s.cursor.rest
  case some v =>
    simp [peekConnector, rest_eq h, spells_eq, Connector.at?, ha, hs ha, Connector.chars]
  case none =>
    cases ho : Connector.or.spelling? s.cursor.rest
    case none => simp [peekConnector, rest_eq h, spells_eq, Connector.at?, ha, ho]
    case some v =>
      simp [peekConnector, rest_eq h, spells_eq, Connector.at?, ha, ho, hs ho, Connector.chars]

theorem connector_eq (h : s.Placed) : connector s.scanner =
    some ((s.take? connector?).1, (s.take? connector?).2.scanner) := by
  cases hk : Connector.at? s.cursor.rest <;>
    simp [connector, peekConnector_eq h, Session.take?, connector?, hk, advance_eq]

theorem peekSpelling_eq (h : s.Placed) : peekSpelling s.scanner =
    some ((Connector.at? s.cursor.rest).map fun (k, v) => (k, String.ofList v), s.scanner) := by
  cases hk : Connector.at? s.cursor.rest
  case none => simp [peekSpelling, peekConnector_eq h, hk]
  case some kv =>
    obtain ⟨_, r, hr, _⟩ := Connector.at?_eq_some_iff.mp hk
    have hb : before? (size kv.2) s.cursor.rest = some kv.2 := before?_eq_some_iff.mpr ⟨r, hr, rfl⟩
    simp [peekSpelling, peekConnector_eq h, rest_eq h, hk, hb]

theorem peekBracket_eq (h : s.Placed) :
    peekBracket s.scanner = some (Bracket.at? s.cursor.rest, s.scanner) := by
  simp [peekBracket, rest_eq h]

theorem slice_eq (h : s.Placed) (hu : u <+: s.cursor.rest) (hw : w.input = s.input) :
    slice s.cursor.offset (s.cursor.offset + size u) w = some (u, w) := by
  obtain ⟨v, hv, hs⟩ := h.exists_before
  obtain ⟨r, hr⟩ := hu
  have hb : slice? s.cursor.offset (s.cursor.offset + size u) w.input = some u :=
    slice?_eq_some_iff.mpr ⟨v, r, by rw [hr, hw, hv], hs, by rw [size_append, hs]⟩
  simp [slice, hb]

theorem endOfPhrase_eq (i : Nat) (text cs : List Char) : endOfPhrase false i text cs =
    (phraseBody? cs).map fun (body, t) => (i + size body, text ++ t) := by
  fun_induction phraseBody? cs generalizing i text
  case case1 => rfl
  case case2 => simp [endOfPhrase]
  case case3 c cs hi => simp [endOfPhrase, hi, Function.comp_def, Nat.add_assoc]
  case case4 c cs hq hs hi =>
    by_cases hc : c = '\\'
    case pos =>
      cases cs
      case nil => simp [endOfPhrase, hc, phraseBody?]
      case cons d ds => exact absurd rfl (hs d ds hc)
    case neg =>
      have hq : c ≠ '"' := hq
      simp [endOfPhrase, hc, hq, hi, Function.comp_def, Nat.add_assoc]

end Scan

namespace Reading

variable {s : Session} {w : Scanner} {α β : Type}

@[simp]
theorem bind_apply {q : Reading α} {g : α → Reading β} : (q >>= g) w = (q w).bind fun
    | (.ok a, w')    => g a w'
    | (.error e, w') => some (.error e, w') := by
  refine (Scan.bind_apply (x := q) (f := ExceptT.bindCont g)).trans ?_
  congr
  funext ⟨a, w'⟩
  cases a <;> rfl

@[simp]
theorem pure_apply {a : α} : (pure a : Reading α) w = some (.ok a, w) :=
  rfl

@[simp]
theorem throw_apply {e : ParseError} : (throw e : Reading α) w = some (.error e, w) :=
  rfl

@[simp]
theorem lift_apply {x : Scan α} : (liftM x : Reading α) w =
    (x w).map fun (a, w') => (.ok a, w') := by
  cases h : x w <;> simp [liftM, monadLift, MonadLift.monadLift, ExceptT.lift, ExceptT.mk, h]

@[simp]
theorem get_apply : (get : Reading Scanner) w = some (.ok w, w) :=
  rfl

@[simp]
theorem set_apply {v : Scanner} : (set v : Reading Unit) w = some (.ok (), v) :=
  rfl

end Reading

namespace Session

variable {m d : Nat} {s t : Session} {c : Cursor} {α β : Type} {p : Parser α} {f : α → Parser β}
variable {literal : List Char}

-- The session is at work on its text, `d` levels below the top of at most `m`.
structure Ready (m d : Nat) (s : Session) : Prop where
  placed   : s.Placed
  maxDepth : s.maxDepth = m
  depth    : s.state.depth = d

theorem Ready.moveTo (h : s.Ready m d) (hc : s.cursor ≤ c) : (s.moveTo c).Ready m d where
  placed   := h.placed.moveTo hc
  maxDepth := h.maxDepth
  depth    := h.depth

theorem run_bind_ok (h : s.run p = (.ok a, t)) : s.run (p >>= f) = t.run (f a) := by
  simp only [run, Parser.bind_apply] at h ⊢
  cases hp : p s.state <;> simp only [hp] at h ⊢ <;> cases h
  rfl

theorem run_bind_error (h : s.run p = (.error e, t)) : s.run (p >>= f) = (.error e, t) := by
  simp only [run, Parser.bind_apply] at h ⊢
  cases hp : p s.state <;> simp only [hp] at h ⊢ <;> cases h
  rfl

theorem run_expect_none (h : s.cursor.eat? literal = none) :
    s.run (Parser.expect literal missing) = (.error ⟨s.cursor.offset, missing⟩, s) := by
  rw [cursor] at h ⊢
  simp [run, Parser.expect, h]

theorem run_expect_some (h : s.cursor.eat? literal = some c) :
    s.run (Parser.expect literal missing) = (.ok (), s.moveTo c) := by
  rw [cursor] at h
  simp [run, Parser.expect, h, Session.moveTo]

theorem run_expect_eq_ok : s.run (Parser.expect literal missing) = (.ok (), t) ↔
    literal <+: s.cursor.rest ∧ s.moveTo (s.cursor.after literal) = t := by
  cases h : s.cursor.eat? literal
  case none =>
    have hl : ¬literal <+: s.cursor.rest := by simpa [eat?] using h
    simp [run_expect_none h, hl]
  case some c =>
    obtain ⟨hl, hc⟩ := eat?_eq_some.mp h
    simp [run_expect_some h, hl, hc]

theorem run_eat (s : Session) (literal : List Char) :
    s.run (Parser.eat literal) = (.ok (s.eat literal).1, (s.eat literal).2) := by
  rw [run, Parser.eat, eat, cursor]
  cases s.state.cursor.eat? literal <;> rfl

theorem run_take? (s : Session) (find : Cursor → Option (α × Cursor)) :
    s.run (Parser.take? find) = (.ok (s.take? find).1, (s.take? find).2) := by
  rw [run, Parser.take?, take?, cursor]
  cases find s.state.cursor <;> rfl

theorem Ready.eat (h : s.Ready m d) : (s.eat literal).2.Ready m d := by
  rw [Session.eat]
  cases he : s.cursor.eat? literal
  case none   => exact h
  case some c => exact h.moveTo (le_of_eat? he)

theorem le_of_run (hp : p.Forward) (h : s.run p = (.ok a, t)) : s.cursor ≤ t.cursor := by
  unfold run at h
  split at h <;> cases h
  case h_1 h => exact hp h

theorem lt_of_run (hp : p.Advances) (h : s.run p = (.ok a, t)) : s.cursor < t.cursor := by
  unfold run at h
  split at h <;> cases h
  case h_1 h => exact hp h

end Session

namespace Reading

variable {m d d' : Nat} {s t : Session} {α β : Type}

-- The scanner finds out the same as the parser, and is left where the parser stops. If it is
-- successful then it can go on `d` levels below the top.
structure Follows (m d : Nat) (q : Reading α) (p : Parser α) (s : Session) : Prop where
  result : q s.scanner = some ((s.run p).1, (s.run p).2.scanner)
  ready  : ∀ {a t}, s.run p = (.ok a, t) → t.Ready m d

namespace Follows

variable {a : α} {p : Parser α} {q : Reading α} {x : Scan α} {f : α → Parser β} {g : α → Reading β}
variable {p₁ p₂ : Parser β} {q₁ : Reading β}

theorem pure (h : s.Ready m d) : Follows m d (Pure.pure a) (Pure.pure a) s where
  result := rfl
  ready  := by
    rintro _ _ ⟨⟩
    exact h

theorem throw {e : ParseError} : Follows m d (throw e : Reading α) (throw e) s where
  result := rfl
  ready  := nofun

theorem of_ok (hx : x s.scanner = some (a, t.scanner)) (hp : s.run p = (.ok a, t))
    (ht : t.Ready m d) : Follows m d (liftM x) p s where
  result := by simp [hx, hp]
  ready  := by
    rw [hp]
    rintro _ _ ⟨⟩
    exact ht

theorem bind (hq : Follows m d' q p s)
    (hf : ∀ {a t}, s.run p = (.ok a, t) → t.Ready m d' → Follows m d (g a) (f a) t) :
    Follows m d (q >>= g) (p >>= f) s := by
  match hp : s.run p with
  | (.ok a, t) =>
    have h := hf hp (hq.ready hp)
    have hb := Session.run_bind_ok (f := f) hp
    exact ⟨by simp [hq.result, hp, hb, h.result], fun hr => h.ready (hb ▸ hr)⟩
  | (.error e, t) =>
    have hb := Session.run_bind_error (f := f) hp
    exact ⟨by simp [hq.result, hp, hb], fun hr => nomatch hb.symm.trans hr⟩

theorem map {h : α → β} (hq : Follows m d q p s) :
    Follows m d (q >>= fun a => Pure.pure (h a)) (h <$> p) s := by
  have hp : h <$> p = p >>= fun a => Pure.pure (h a) := by
    funext s
    simp only [Parser.map_apply, Parser.bind_apply, Parser.pure_apply]
  rw [hp]
  exact hq.bind fun _ hr => .pure hr

-- The parser does from here what it does from `t`, where the scanner is as well after a scan.
theorem scan (hx : x s.scanner = some (a, t.scanner)) (hp : s.run p₂ = t.run p₁)
    (h : Follows m d (g a) p₁ t) : Follows m d (liftM x >>= g) p₂ s where
  result   := by simp [hx, hp, h.result]
  ready hr := h.ready (hp ▸ hr)

theorem look (hx : x s.scanner = some (a, s.scanner)) (h : Follows m d (g a) p₁ s) :
    Follows m d (liftM x >>= g) p₁ s :=
  .scan hx rfl h

-- The parser takes a step which is nothing to a scanner.
theorem silent (hs : t.scanner = s.scanner) (hp : s.run p₂ = t.run p₁) (h : Follows m d q₁ p₁ t) :
    Follows m d q₁ p₂ s where
  result   := by rw [← hs, hp, h.result]
  ready hr := h.ready (hp ▸ hr)

theorem get {g : Scanner → Reading β} (h : Follows m d (g s.scanner) p₁ s) :
    Follows m d (get >>= g) p₁ s where
  result := by simp [h.result]
  ready  := h.ready

theorem here {f : Cursor → Parser β} (h : Follows m d q₁ (f s.cursor) s) :
    Follows m d q₁ (Parser.here >>= f) s :=
  have hp : s.run (Parser.here >>= f) = s.run (f s.cursor) := rfl
  .silent rfl hp h

theorem noted {n : Note} (h : s.Ready m d) :
    Follows m d (Pure.pure a) (Parser.note n >>= fun _ => Pure.pure a) s where
  result := rfl
  ready  := by
    rintro _ _ ⟨⟩
    exact ⟨h.placed, h.maxDepth, h.depth⟩

theorem skipBlank {g : Bool → Reading β} {f : Unit → Parser β} (hs : s.Ready m d')
    (h : (s.moveTo s.cursor.skipBlank).Ready m d' →
      Follows m d (g s.cursor.atBlank) (f ()) (s.moveTo s.cursor.skipBlank)) :
    Follows m d (liftM Scan.skipBlank >>= g) (Parser.skipBlank >>= f) s :=
  .scan (Scan.skipBlank_eq hs.placed) rfl (h (hs.moveTo le_skipBlank))

theorem take? {find : Cursor → Option (α × Cursor)} {x : Scan (Option α)}
    {g : Option α → Reading β} {f : Option α → Parser β} (hs : s.Ready m d')
    (hx : x s.scanner = some ((s.take? find).1, (s.take? find).2.scanner))
    (hl : ∀ {c a c'}, find c = some (a, c') → c < c')
    (hn : Follows m d (g none) (f none) s)
    (hf : ∀ {a c}, find s.cursor = some (a, c) → (s.moveTo c).Ready m d' →
      Follows m d (g (some a)) (f (some a)) (s.moveTo c)) :
    Follows m d (liftM x >>= g) (Parser.take? find >>= f) s := by
  refine .scan hx (Session.run_bind_ok (Session.run_take? s find)) ?_
  rw [Session.take?]
  cases h : find s.cursor
  case none   => exact hn
  case some ac => exact hf h (hs.moveTo (le_of_lt (hl h)))

end Follows

theorem follows_expect {found : Scan Bool} (hs : s.Ready m d)
    (hx : found s.scanner = some ((s.eat literal).1, (s.eat literal).2.scanner)) :
    Follows m d (expect found missing) (Parser.expect literal missing) s := by
  cases h : s.cursor.eat? literal
  case none =>
    have hr : s.run (Parser.expect literal missing) = _ := Session.run_expect_none h
    exact ⟨by simp [expect, hx, Session.eat, h, hr], fun ha => nomatch hr.symm.trans ha⟩
  case some c =>
    have hr : s.run (Parser.expect literal missing) = _ := Session.run_expect_some h
    refine ⟨by simp [expect, hx, Session.eat, h, hr], fun ha => ?_⟩
    cases hr.symm.trans ha
    exact hs.moveTo (le_of_eat? h)

theorem follows_eat {found : Scan Bool} (hs : s.Ready m d)
    (hx : found s.scanner = some ((s.eat literal).1, (s.eat literal).2.scanner)) :
    Follows m d (liftM found) (Parser.eat literal) s :=
  .of_ok hx (Session.run_eat s literal) hs.eat

theorem follows_quoted (hs : s.Ready m d) : Follows m d quoted Parser.phrase s := by
  refine .here (.look rfl ?_)
  refine .bind (follows_expect hs (Scan.punct_eq hs.placed)) fun he ht => ?_
  obtain ⟨hq, rfl⟩ := Session.run_expect_eq_ok.mp he
  obtain ⟨r, hr⟩ := hq
  refine .here (.look (Scan.rest_eq ht.placed) ?_)
  rw [Scan.endOfPhrase_eq]
  cases hb : phraseBody? (s.moveTo (s.cursor.after ['"'])).cursor.rest
  case none =>
    -- The scanner reports the end of its input, the parser the end of what was left.
    have ⟨u, hu, hn⟩ := hs.placed.exists_before
    have he : size s.input = s.cursor.offset + size s.cursor.rest := by rw [hu, size_append, hn]
    refine ⟨?_, nofun⟩
    rw [← he]
    rfl
  case some b =>
    -- The slice starts at the opening quote, so its end counts both quotes.
    obtain ⟨body, text⟩ := b
    have hl : '"' :: (body ++ ['"']) <+: s.cursor.rest := by
      have hb := prefix_of_phraseBody? hb
      simp only [Session.cursor_moveTo, Cursor.after, ← hr] at hb
      simpa [← hr] using hb
    have hq : '"'.utf8Size = 1 := rfl
    have hn : (s.moveTo (s.cursor.after ['"'])).cursor.offset + (0 + size body) + 1 =
        s.cursor.offset + size ('"' :: (body ++ ['"'])) := by
      simp [Cursor.after, hq]
      omega
    simp only [Option.map_some, List.nil_append]
    refine .look rfl (.look (hn ▸ Scan.slice_eq hs.placed hl rfl) ?_)
    refine .scan (a := ()) ?_ ?_ (.pure (hs.moveTo (le_after hl)))
    · exact hn ▸ rfl
    · rfl

theorem follows_bareWord (hs : s.Ready m d) : Follows m d bareWord Parser.bareWord s := by
  refine .here (.look rfl ?_)
  exact .take? hs (Scan.word_eq hs.placed) lt_of_span? .throw fun _ ht => .pure ht

variable {q : Reading Fragment} {g : Parser Fragment} {scope : Scope}

theorem run_bareWord_of_missing (hp : s.cursor.peek = some c) (hc : isBlank c ∨ c = ')') :
    s.run (Operand.atom <$> Parser.bareWord) = s.run (throw ⟨s.cursor.offset, .value⟩) := by
  have hw : isWordChar c = false := by
    rcases hc with hc | rfl
    · simp [isWordChar, hc]
    · rfl
  have hn : s.state.cursor.word? = none := by
    have ⟨r, hr⟩ : ∃ r, s.state.cursor.rest = c :: r := List.head?_eq_some_iff.mp hp
    simp [word?, span?, Cursor.run, hr, hw]
  simp [Session.run, Session.cursor, Parser.bareWord, Parser.take?, hn]

theorem follows_operand (hs : s.Ready m d)
    (hg : ∀ {t : Session}, t.Ready m d → Follows m d q g t) :
    Follows m d (operand q) (Parser.operand g) s := by
  refine .here (.look rfl (.look (Scan.peek_eq hs.placed) ?_))
  cases hp : s.cursor.peek
  case none => exact .throw
  case some c =>
    by_cases hq : c = '"'
    case pos => exact hq ▸ (follows_quoted hs).map
    by_cases ho : c = '('
    case pos => exact ho ▸ (hg hs).map
    simp only
    split
    case isTrue hc =>
      have hr := run_bareWord_of_missing hp (by simpa using hc)
      exact .silent rfl hr .throw
    case isFalse => exact (follows_bareWord hs).map

theorem follows_item (hs : s.Ready m d)
    (hg : ∀ {t : Session}, t.Ready m d → Follows m d q g t) :
    Follows m d (item q) (Parser.item g) s := by
  refine .here (.look rfl (.look (Scan.peek_eq hs.placed) ?_))
  cases s.cursor.peek
  case none => exact .throw
  case some c =>
    by_cases hc : c = ')'
    case pos => exact hc ▸ .throw
    by_cases ho : c = '('
    case pos => exact ho ▸ (hg hs).map
    by_cases hq : c = '"'
    case pos => exact hq ▸ (follows_quoted hs).map
    simp only
    refine .take? hs (Scan.word_eq hs.placed) lt_of_span? (follows_bareWord hs).map fun _ ht => ?_
    refine .take? ht (Scan.operator_eq ht.placed) lt_of_operator? (.pure ht) fun _ hu => ?_
    exact (follows_operand hu hg).map

theorem atSequenceEnd_eq (hs : s.Placed) :
    atSequenceEnd scope s.scanner = some (scope.endsAt s.cursor, s.scanner) := by
  cases hp : s.cursor.peek
  case none => simp [atSequenceEnd, Scan.peek_eq hs, hp, Scope.endsAt]
  case some c =>
    by_cases hc : c = ')'
    case pos => simp [atSequenceEnd, Scan.peek_eq hs, hp, Scope.endsAt, hc]
    case neg =>
      cases scope <;>
        simp [atSequenceEnd, Scan.peek_eq hs, Scan.peekBracket_eq hs, hp, Scope.endsAt]

theorem follows_junction? (hs : s.Ready m d) :
    Follows m d (junction? scope) (Parser.junction? scope) s := by
  refine .here (.skipBlank hs fun ht => .here (.look (atSequenceEnd_eq ht.placed) ?_))
  split
  case isTrue => exact .pure ht
  case isFalse =>
    simp only [Parser.junction, bind_assoc]
    refine .take? ht (Scan.connector_eq ht.placed) lt_of_connector? ?_ fun _ hu => ?_
    · simp only [pure_bind]
      exact .here (.noted ht)
    · simp only [bind_assoc]
      refine .skipBlank hu fun hv => .here (.look (atSequenceEnd_eq hv.placed) ?_)
      split
      case isTrue => exact .look rfl (.silent (t := _) rfl rfl .throw)
      case isFalse =>
        simp only [pure_bind]
        exact .here (.noted hv)

-- There is a character left for each round, as each item takes one.
theorem follows_itemsIn {g : Advancing Fragment} (hs : s.Ready m d)
    (hg : ∀ {t : Session}, t.Ready m d → Follows m d q g.run t)
    (hn : s.cursor.rest.length < rounds) :
    Follows m d (itemsIn (item q) scope rounds) (Parser.sequence (Parser.items g) scope) s := by
  induction rounds generalizing s
  case zero => exact absurd hn (Nat.not_lt_zero _)
  case succ rounds ih =>
    rw [itemsIn, Parser.sequence_eq]
    refine (follows_item hs hg).bind fun hi ht => ?_
    refine (follows_junction? ht).bind fun {j u} hj hu => ?_
    cases j
    case none => exact .pure hu
    case some j =>
      have hlt : u.cursor.rest.length < s.cursor.rest.length :=
        length_lt_of_lt <| lt_of_lt_of_le (Session.lt_of_run (Parser.items g).advances hi)
          (Session.le_of_run Parser.junction?_forward hj)
      exact (ih hu (by omega)).map

theorem follows_sequence {g : Advancing Fragment} (hs : s.Ready m d)
    (hg : ∀ {t : Session}, t.Ready m d → Follows m d q g.run t) :
    Follows m d (sequence (item q) scope) (Parser.sequence (Parser.items g) scope) s :=
  .get (follows_itemsIn hs hg hs.placed.length_rest_lt)

theorem follows_enter (hs : s.Ready m d) (hd : d < m) (position : Nat) :
    Follows m (d + 1) (enter position) Parser.enter s where
  result := by
    have hn : ¬s.scanner.maxDepth ≤ s.scanner.depth := by
      rw [Session.maxDepth_scanner, Session.depth_scanner, hs.maxDepth, hs.depth]
      omega
    simp only [enter, bind_apply, get_apply, Option.bind_some, if_neg hn, set_apply]
    rfl
  ready := by
    rintro _ _ ⟨⟩
    exact ⟨hs.placed, hs.maxDepth, by simp [hs.depth]⟩

theorem follows_leave (hs : s.Ready m (d + 1)) :
    Follows m d (liftM leave) Parser.leave s where
  result := by
    have hn : s.scanner.depth.ppred = some (s.scanner.depth - 1) := by simp [hs.depth]
    simp only [leave, lift_apply, Scan.bind_apply, Scan.get_apply, Scan.lift_apply, Scan.set_apply,
      Option.bind_some, hn, Option.map_some]
    rfl
  ready := by
    rintro _ _ ⟨⟩
    exact ⟨hs.placed, hs.maxDepth, by simp [hs.depth]⟩

-- A scanner which is as deep as it may be refuses to go on.
theorem follows_refuseLevel {found : Scan Bool} {h : Unit → Reading α} (hs : s.Ready m d)
    (hd : m ≤ d) (hx : found s.scanner = some ((s.eat [c]).1, (s.eat [c]).2.scanner)) :
    Follows m d (do
      let start ← Scan.position
      expect found missing
      enter start >>= h) (Parser.refuseLevel c missing) s := by
  refine .here (.look rfl ((follows_expect hs hx).bind fun {_ t} _ ht => ⟨?_, nofun⟩))
  have hm : t.scanner.maxDepth ≤ t.scanner.depth := by
    simpa [ht.maxDepth, ht.depth] using hd
  simp only [enter, bind_apply, get_apply, Option.bind_some, if_pos hm, throw_apply]
  rfl

theorem follows_enclosed (hs : s.Ready m d) (hd : d < m)
    (hq : ∀ {t : Session}, t.Ready m (d + 1) → Follows m (d + 1) q g t) :
    Follows m d (enclosed q) (Parser.enclosed g) s := by
  refine .look rfl ((follows_expect hs (Scan.punct_eq hs.placed)).bind fun _ ht => ?_)
  refine (follows_enter ht hd _).bind fun _ hu => .skipBlank hu fun hv => ?_
  refine (hq hv).bind fun _ hw => .skipBlank hw fun hx => ?_
  refine (follows_expect hx (Scan.punct_eq hx.placed)).bind fun _ hy => ?_
  exact (follows_leave hy).bind fun _ hz => .pure hz

-- By induction on the levels which are left. Without any the bound does not matter, as the scanner
-- does not get inside.
theorem follows_groupIn (hs : s.Ready m d) (hl : m - d ≤ levels) :
    Follows m d (groupIn levels) (Parser.group (m - d)).run s := by
  induction hn : m - d generalizing d s levels
  case zero =>
    cases levels
    all_goals exact follows_refuseLevel hs (by omega) (Scan.punct_eq hs.placed)
  case succ n ih =>
    cases levels
    case zero => omega
    case succ levels =>
      refine follows_enclosed hs (by omega) fun ht => follows_sequence ht fun hu => ?_
      exact ih hu (by omega) (by omega)

theorem follows_group (hs : s.Ready m d) : Follows m d group (Parser.group (m - d)).run s :=
  .get (follows_groupIn hs (by simp [hs.maxDepth]))

theorem follows_facetName (hs : s.Ready m d) : Follows m d facetName Parser.facetName s := by
  refine .here (.look rfl ?_)
  refine .take? hs (Scan.word_eq hs.placed) lt_of_span? .throw fun _ ht => ?_
  dsimp only
  split
  case isTrue  => exact .pure ht
  case isFalse => exact .throw

theorem follows_filter? (hs : s.Ready m d) :
    Follows m d filter? (Parser.filter? (Parser.group (m - d)).run) s := by
  have ht := hs.moveTo (le_skipBlank (c := s.cursor))
  refine .here (.look rfl ?_)
  split
  case isTrue hp =>
    refine .skipBlank hs fun ht => .look (Scan.peek_eq ht.placed) ?_
    rw [Session.cursor_moveTo, if_pos hp]
    exact (follows_group ht).map
  case isFalse hp =>
    have hn : (s.moveTo s.cursor.skipBlank).cursor.peek ≠ some '(' := hp
    refine ⟨?_, (Follows.pure hs).ready⟩
    simp only [bind_apply, lift_apply, Scan.skipBlank_eq hs.placed, Scan.peek_eq ht.placed,
      Option.map_some, Option.bind_some, if_neg hn]
    rfl

theorem follows_facet (hs : s.Ready m d) :
    Follows m d facet (Parser.facet (Parser.group (m - d))).run s := by
  refine (follows_facetName hs).bind fun _ ht => ?_
  refine (follows_filter? ht).bind fun _ hu => .noted hu

theorem follows_nested (hs : s.Ready m d) :
    Follows m d nested (Parser.nested (Parser.group (m - d))).run s := by
  refine (follows_facetName hs).bind fun _ ht => .skipBlank ht fun hu => ?_
  exact (follows_group hu).bind fun _ hv => .noted hv

theorem follows_separator (hs : s.Ready m d) : Follows m d separator Parser.separator s := by
  refine .skipBlank hs fun ht => ?_
  refine (follows_eat ht (Scan.punct_eq ht.placed)).bind fun _ hu => .skipBlank hu fun hv => ?_
  exact follows_eat hv (Scan.punct_eq hv.placed)

theorem follows_entriesIn {q : Reading α} {entry : Advancing α} (hs : s.Ready m d)
    (hq : ∀ {t : Session}, t.Ready m d → Follows m d q entry.run t)
    (hn : s.cursor.rest.length < rounds) :
    Follows m d (entriesIn q rounds) (Parser.entries entry) s := by
  induction rounds generalizing s
  case zero => exact absurd hn (Nat.not_lt_zero _)
  case succ rounds ih =>
    rw [entriesIn, Parser.entries_eq]
    refine .here (.look (Scan.atEnd_eq hs.placed) ?_)
    split
    case isTrue => exact .look rfl .throw
    case isFalse =>
      refine (hq hs).bind fun ha ht => (follows_separator ht).bind fun {_ u} hb hu => ?_
      split
      case isTrue => exact .pure hu
      case isFalse =>
        have hlt : u.cursor.rest.length < s.cursor.rest.length :=
          length_lt_of_lt <| lt_of_lt_of_le (Session.lt_of_run entry.advances ha)
            (Session.le_of_run Parser.separator_forward hb)
        exact (ih hu (by omega)).map

theorem follows_entries {q : Reading α} {entry : Advancing α} (hs : s.Ready m d)
    (hq : ∀ {t : Session}, t.Ready m d → Follows m d q entry.run t) :
    Follows m d (entries q) (Parser.entries entry) s :=
  .get (follows_entriesIn hs hq hs.placed.length_rest_lt)

theorem follows_clause {q : Reading α} {b : Bracket} {entry : Advancing Fragment → Advancing α}
    (hs : s.Ready m d) (hq : ∀ {d} {t : Session}, t.Ready m d →
      Follows m d q (entry (Parser.group (m - d))).run t) :
    Follows m d (clause b q) (Parser.clause b entry (m - d)).run s := by
  cases hn : m - d
  case zero =>
    simp only [Parser.clause, Parser.keyword, bind_assoc]
    refine (follows_expect hs (Scan.eat_eq hs.placed)).bind fun _ ht => .skipBlank ht fun hu => ?_
    exact follows_refuseLevel hu (by omega) (Scan.punct_eq hu.placed)
  case succ n =>
    have hd : m - (d + 1) = n := by omega
    simp only [Parser.clause, Parser.keyword, bind_assoc]
    refine (follows_expect hs (Scan.eat_eq hs.placed)).bind fun _ ht => .skipBlank ht fun hu => ?_
    refine .look rfl ((follows_expect hu (Scan.punct_eq hu.placed)).bind fun _ hv => ?_)
    refine (follows_enter hv (by omega) _).bind fun _ hw => .skipBlank hw fun hx => ?_
    refine (follows_entries hx fun hy => hd ▸ hq hy).bind fun _ hy => ?_
    exact (follows_leave hy).bind fun _ hz => .pure hz

theorem follows_dropAnd (hs : s.Ready m d) : Follows m d (liftM dropAnd) Parser.dropAnd s := by
  have ht := hs.moveTo (le_skipBlank (c := s.cursor))
  have hb := Scan.skipBlank_eq hs.placed
  have hp := Scan.peekConnector_eq ht.placed
  have he := Scan.connector_eq ht.placed
  rcases hk : Connector.at? s.cursor.skipBlank.rest with _ | ⟨_ | _, v⟩
  case some.and =>
    refine .of_ok (a := ()) (t := s.moveTo (s.cursor.skipBlank.after v)) ?_ ?_ ?_
    · simp [dropAnd, hb, hp, he, hk, Session.take?, connector?]
      rfl
    · rw [Session.cursor] at hk
      simp [Session.run, Session.cursor, Parser.dropAnd, connector?, hk, Session.moveTo]
    · exact ht.moveTo (le_after (Connector.prefix_of_at? hk))
  -- Whatever else follows, the blanks are given back.
  all_goals
    refine .of_ok (a := ()) ?_ ?_ hs
    · simp [dropAnd, hb, hp, hk]
      rfl
    · rw [Session.cursor] at hk
      simp [Session.run, Parser.dropAnd, connector?, hk]

theorem follows_typeClause (hs : s.Ready m d) : Follows m d typeClause Parser.typeClause s := by
  refine .here (.look (Scan.rest_eq hs.placed) ?_)
  split
  case isFalse => exact .pure hs
  case isTrue ho =>
    have hl : Parser.typeKeyword <+: s.cursor.rest := by
      simp only [Parser.opensTypeClause, Bool.and_eq_true, List.isPrefixOf_iff_prefix] at ho
      exact ho.1
    have ht := hs.moveTo (le_after hl)
    have he : s.eat Parser.typeKeyword = (true, s.moveTo (s.cursor.after Parser.typeKeyword)) := by
      simp [Session.eat, eat?_eq_some.mpr ⟨hl, rfl⟩]
    have hx := he ▸ Scan.eat_eq (u := Parser.typeKeyword) hs.placed
    refine .scan hx (Session.run_bind_ok (Session.run_expect_eq_ok.mpr ⟨hl, rfl⟩)) ?_
    refine .here (.look rfl ?_)
    refine .take? ht (Scan.word_eq ht.placed) lt_of_span? .throw fun {_ c} _ hu => ?_
    refine .here (.look (Scan.peek_eq hu.placed) ?_)
    have hb : c.peek.any (!isBlank ·) = !(c.atEnd || c.atBlank) := by
      cases hc : c.rest <;> simp [Cursor.peek, Cursor.atEnd, Cursor.atBlank, hc]
    rw [Session.cursor_moveTo, hb]
    cases c.atEnd || c.atBlank
    case false => exact .look rfl .throw
    case true  => exact (follows_dropAnd hu).bind fun _ hv => .noted hv

end Reading

end SearchQuery
