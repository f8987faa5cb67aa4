import SearchQuery.Proofs.Lookahead

namespace SearchQuery.Parser

open Text Cursor

-- Before `passed ++ rest`, `p` reads `a` and consumes `passed`.
def Accepts (p : Parser α) (passed : List Char) (a : α) (rest : List Char) : Prop :=
  ∀ s, s.cursor.rest = passed ++ rest → ∃ s', p s = .ok a s' ∧ Reads s.cursor passed s'.cursor

-- Before `passed ++ rest`, `p` fails behind `passed`, where it misses `x`.
def Rejects (p : Parser α) (passed : List Char) (x : Expected) (rest : List Char) : Prop :=
  ∀ s, s.cursor.rest = passed ++ rest →
    ∃ s', p s = .error ⟨s.cursor.offset + size passed, x⟩ s'

variable {p : Parser α} {f : α → Parser β} {g : α → β} {u v r : List Char} {s : State}

@[simp]
theorem bind_apply : (p >>= f) s = match p s with
    | .ok a s'    => f a s'
    | .error e s' => .error e s' := by
  simp only [Bind.bind, EStateM.bind]
  split <;> simp_all

@[simp]
theorem map_apply : (g <$> p) s = match p s with
    | .ok a s'    => .ok (g a) s'
    | .error e s' => .error e s' := by
  simp only [Functor.map, EStateM.map]
  split <;> simp_all

@[simp]
theorem pure_apply : (Pure.pure a : Parser α) s = .ok a s :=
  rfl

@[simp]
theorem throw_apply : (throw e : Parser α) s = .error e s :=
  rfl

@[simp]
theorem modify_apply {m : State → State} : (modify m : Parser Unit) s = .ok () (m s) :=
  rfl

@[simp]
theorem here_apply : here s = .ok s.cursor s :=
  rfl

theorem Accepts.pure : Accepts (Pure.pure a) [] a r := by
  intro s _
  exact ⟨s, rfl, .nil⟩

theorem Accepts.bind (hp : Accepts p u a (v ++ r)) (hf : Accepts (f a) v b r) :
    Accepts (p >>= f) (u ++ v) b r := by
  intro s hs
  have ⟨s₁, h₁, hr₁⟩ := hp s (by simp [hs])
  have hs₁ : s₁.cursor.rest = v ++ r := by simpa [hs] using hr₁.rest.symm
  have ⟨s₂, h₂, hr₂⟩ := hf s₁ hs₁
  exact ⟨s₂, bind_eq_ok.mpr ⟨a, s₁, h₁, h₂⟩, hr₁.trans hr₂⟩

-- What follows only looks at what `p` has read.
theorem Accepts.bind_nil (hp : Accepts p u a r) (hf : Accepts (f a) [] b r) :
    Accepts (p >>= f) u b r := by
  have h : Accepts (p >>= f) (u ++ []) b r := hp.bind hf
  simpa using h

-- What comes first only looks ahead.
theorem Accepts.nil_bind (hp : Accepts p [] a (v ++ r)) (hf : Accepts (f a) v b r) :
    Accepts (p >>= f) v b r :=
  hp.bind hf

theorem Accepts.map (hp : Accepts p u a r) : Accepts (g <$> p) u (g a) r := by
  intro s hs
  have ⟨s', h, hr⟩ := hp s hs
  exact ⟨s', map_eq_ok.mpr ⟨a, h, rfl⟩, hr⟩

theorem Rejects.bind (hp : Accepts p u a (v ++ r)) (hf : Rejects (f a) v x r) :
    Rejects (p >>= f) (u ++ v) x r := by
  intro s hs
  have ⟨s₁, h₁, hr₁⟩ := hp s (by simp [hs])
  have hs₁ : s₁.cursor.rest = v ++ r := by simpa [hs] using hr₁.rest.symm
  have ⟨s₂, h₂⟩ := hf s₁ hs₁
  refine ⟨s₂, ?_⟩
  simp [h₁, h₂, hr₁.offset, Nat.add_assoc]

theorem Rejects.bind_nil (hp : Accepts p u a r) (hf : Rejects (f a) [] x r) :
    Rejects (p >>= f) u x r := by
  have h : Rejects (p >>= f) (u ++ []) x r := .bind hp hf
  simpa using h

theorem Rejects.nil_bind (hp : Accepts p [] a (v ++ r)) (hf : Rejects (f a) v x r) :
    Rejects (p >>= f) v x r :=
  .bind hp hf

theorem Rejects.bind_left (hp : Rejects p u x r) : Rejects (p >>= f) u x r := by
  intro s hs
  have ⟨s', h⟩ := hp s hs
  exact ⟨s', by simp [h]⟩

theorem Rejects.map (hp : Rejects p u x r) : Rejects (g <$> p) u x r := by
  intro s hs
  have ⟨s', h⟩ := hp s hs
  exact ⟨s', by simp [h]⟩

-- A parser which looks around first may use what is ahead.
theorem Accepts.of_here {f : Cursor → Parser α} (h : ∀ c, c.rest = u ++ r → Accepts (f c) u a r) :
    Accepts (here >>= f) u a r :=
  fun s hs => h s.cursor hs s hs

theorem Rejects.of_here {f : Cursor → Parser α} (h : ∀ c, c.rest = u ++ r → Rejects (f c) u x r) :
    Rejects (here >>= f) u x r :=
  fun s hs => h s.cursor hs s hs

theorem Rejects.of_here_throw {f : Cursor → Parser α}
    (h : ∀ c, c.rest = r → f c = throw ⟨c.offset, x⟩) : Rejects (here >>= f) [] x r := by
  intro s hs
  exact ⟨s, by simp [h s.cursor hs]⟩

theorem accepts_note : Accepts (note n) [] () r :=
  fun _ _ => ⟨_, rfl, .nil⟩

theorem accepts_enter : Accepts enter [] () r :=
  fun _ _ => ⟨_, rfl, .nil⟩

theorem accepts_leave : Accepts leave [] () r :=
  fun _ _ => ⟨_, rfl, .nil⟩

theorem accepts_skipBlank (hu : IsBlank u) (hr : Stops isBlank r) : Accepts skipBlank u () r :=
  fun _ hs => ⟨_, rfl, reads_skipBlank hs hu hr⟩

theorem accepts_expect : Accepts (expect u missing) u () r := by
  intro s hs
  have hp : u <+: s.cursor.rest := by simp [hs]
  exact ⟨_, expect_eq_ok.mpr ⟨hp, rfl⟩, .after hp⟩

theorem rejects_expect (h : ¬u <+: r) : Rejects (expect u missing) [] missing r := by
  intro s hs
  have hn : s.cursor.eat? u = none := by simpa [eat?, hs] using h
  exact ⟨s, by simp [expect, hn]⟩

theorem rejects_expect_char (h : r.head? ≠ some c) : Rejects (expect [c] missing) [] missing r :=
  rejects_expect <| not_prefix_of_head? h

theorem rejects_refuseLevel :
    Rejects (refuseLevel c missing : Parser α) [] .shallowerNesting (c :: r) := by
  intro s hs
  have he : Accepts (expect [c] missing) [c] () r := accepts_expect
  have ⟨s', h, _⟩ := he s hs
  exact ⟨s', by simp [refuseLevel, h]⟩

theorem rejects_refuseLevel_missing (h : r.head? ≠ some c) :
    Rejects (refuseLevel c missing : Parser α) [] missing r :=
  .of_here fun _ _ => (rejects_expect_char h).bind_left

theorem accepts_eat : Accepts (eat u) u true r := by
  intro s hs
  have hp : u <+: s.cursor.rest := by simp [hs]
  have he := eat?_eq_some.mpr ⟨hp, rfl⟩
  exact ⟨_, by simp only [eat, he]; rfl, .after hp⟩

theorem accepts_eat_none (h : ¬u <+: r) : Accepts (eat u) [] false r := by
  intro s hs
  have hn : s.cursor.eat? u = none := by simpa [eat?, hs] using h
  exact ⟨s, by simp [eat, hn], .nil⟩

variable {find : Cursor → Option (α × Cursor)}

theorem accepts_take? (h : ∀ c, c.rest = u ++ r → find c = some (a, c.after u)) :
    Accepts (take? find) u (some a) r := by
  intro s hs
  refine ⟨{ s with cursor := s.cursor.after u }, ?_, .after (by simp [hs])⟩
  simp [Parser.take?, h s.cursor hs]

theorem accepts_take?_none (h : ∀ c, c.rest = r → find c = none) :
    Accepts (take? find) [] none r := by
  intro s hs
  exact ⟨s, by simp [Parser.take?, h s.cursor hs], .nil⟩

variable {word : Cursor → Option (String × Cursor)} {isPart : Char → Bool}

theorem accepts_span? (hf : word = (span? · isPart)) (hu : ∀ c ∈ u, isPart c) (n : u ≠ [])
    (hr : Stops isPart r) : Accepts (take? word) u (some (String.ofList u)) r :=
  accepts_take? fun c hc => by
    have hw : c.run isPart = u := by rw [run, hc, takeWhile_append hu hr]
    simp [hf, span?, hw, n]

theorem accepts_span?_none (hf : word = (span? · isPart)) (hr : Stops isPart r) :
    Accepts (take? word) [] none r :=
  accepts_take?_none fun c hc => by
    have hw : c.run isPart = [] := by
      have h : ([] ++ r).takeWhile isPart = [] := takeWhile_append (by simp) hr
      rwa [run, hc]
    simp [hf, span?, hw]

theorem accepts_operator? (h : op.Longest r) : Accepts (take? operator?) op.chars (some op) r :=
  accepts_take? fun c hc => by simp [operator?, hc, Operator.at?_eq_some_iff.mpr h]

theorem accepts_operator?_none (h : r.head? ≠ some ':') : Accepts (take? operator?) [] none r :=
  accepts_take?_none fun c hc => by
    have hn : Operator.at? r = none := by
      unfold Operator.at?
      split <;> simp_all
    simp [operator?, hc, hn]

theorem accepts_connector? (hu : k.Spelling u) (hr : Stops isWordChar r) :
    Accepts (take? connector?) u (some k) r :=
  accepts_take? fun c hc => by simp [connector?, Connector.at?_eq_some_iff.mpr ⟨hu, r, hc, hr⟩]

theorem accepts_connector?_none (h : Connector.at? r = none) :
    Accepts (take? connector?) [] none r :=
  accepts_take?_none fun c hc => by simp [connector?, hc, h]

theorem Accepts.ok (h : Accepts p u a r) (hs : s.cursor.rest = u ++ r) (ho : p s = .ok b s') :
    b = a ∧ Reads s.cursor u s'.cursor := by
  have ⟨t, ht, hr⟩ := h s hs
  rw [ho] at ht
  cases ht
  exact ⟨rfl, hr⟩

theorem Rejects.error (h : Rejects p u x r) (hs : s.cursor.rest = u ++ r)
    (ho : p s = .error e s') : e = ⟨s.cursor.offset + size u, x⟩ := by
  have ⟨t, ht⟩ := h s hs
  rw [ho] at ht
  cases ht
  rfl

theorem Accepts.not_rejects (h₁ : Accepts p u a r) (h₂ : Rejects p v x t) :
    u ++ r ≠ v ++ t := by
  intro he
  have ⟨_, hs, _⟩ := h₁ (.start (u ++ r)) rfl
  have ⟨_, ht⟩ := h₂ (.start (u ++ r)) he
  simp [hs] at ht

theorem Rejects.unique (h₁ : Rejects p u x r) (h₂ : Rejects p v y t) (he : u ++ r = v ++ t) :
    x = y ∧ u = v ∧ r = t := by
  have ⟨_, hs⟩ := h₁ (.start (u ++ r)) rfl
  have ho := h₂.error (s := .start (u ++ r)) he hs
  simp [State.start, Cursor.start] at ho
  have ⟨hu, hx⟩ := ho
  have hu := eq_of_size_eq he hu
  subst hu
  exact ⟨hx, rfl, List.append_cancel_left he⟩

theorem Accepts.ne_nil {p : Advancing α} (h : Accepts p.run u a r) : u ≠ [] := by
  have ⟨s', hs, hr⟩ := h (.start (u ++ r)) rfl
  have ⟨v, hv, hr'⟩ := p.advances hs
  exact List.append_cancel_right (hr.rest.symm.trans hr'.rest) ▸ hv

-- `p` accepts what is found, rejects what fails, and there is no third way.
structure Describes (Found : α → List Char → List Char → Prop)
    (Fails : List Char → Expected → List Char → Prop) (p : Parser α) : Prop where
  accepts : ∀ {a u r}, Found a u r → Accepts p u a r
  rejects : ∀ {u x r}, Fails u x r → Rejects p u x r
  decides : ∀ cs, (∃ a u r, cs = u ++ r ∧ Found a u r) ∨ ∃ u x r, cs = u ++ r ∧ Fails u x r

namespace Describes

variable {Found : α → List Char → List Char → Prop} {Fails : List Char → Expected → List Char → Prop}

theorem of_ok (h : Describes Found Fails p) (hp : p s = .ok a s') :
    ∃ u, Found a u s'.cursor.rest ∧ Reads s.cursor u s'.cursor := by
  cases h.decides s.cursor.rest
  case inl hd =>
    have ⟨b, u, r, he, hf⟩ := hd
    have ⟨hb, hr⟩ := (h.accepts hf).ok he hp
    have hr' : s'.cursor.rest = r := List.append_cancel_left <| hr.rest.symm.trans he
    subst hb hr'
    exact ⟨u, hf, hr⟩
  case inr hd =>
    have ⟨u, x, r, he, hf⟩ := hd
    have ⟨t, ht⟩ := h.rejects hf s he
    exact nomatch hp.symm.trans ht

theorem of_error (h : Describes Found Fails p) (hp : p s = .error e s') :
    ∃ u x r, s.cursor.rest = u ++ r ∧ Fails u x r ∧ e = ⟨s.cursor.offset + size u, x⟩ := by
  cases h.decides s.cursor.rest
  case inl hd =>
    have ⟨a, u, r, he, hf⟩ := hd
    have ⟨t, ht, _⟩ := h.accepts hf s he
    exact nomatch hp.symm.trans ht
  case inr hd =>
    have ⟨u, x, r, he, hf⟩ := hd
    exact ⟨u, x, r, he, hf, (h.rejects hf).error he hp⟩

end Describes

end SearchQuery.Parser
