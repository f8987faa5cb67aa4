import SearchQuery.Session
import SearchQuery.Proofs.Quotation

namespace SearchQuery

open Text Cursor

namespace Operation

variable {α : Type}

-- The operations which look for one token and take it if it is there. A punctuation mark is eaten
-- as a text of one character.
def ReadsToken : Operation α → Prop
  | eat _ | key | word | name | typeWord | operator | connector | phrase => True
  | _                                                                    => False

-- The answer tells of a token which is written as `w`.
inductive Produces : {α : Type} → Operation α → α → List Char → Prop
  | eat {text : String}      : Produces (.eat text) true text.toList
  | key {text : String}      : Produces .key (some text) text.toList
  | word {text : String}     : Produces .word (some text) text.toList
  | name {text : String}     : Produces .name (some text) text.toList
  | typeWord {text : String} : Produces .typeWord (some text) text.toList
  | operator {o : Operator}  : Produces .operator (some o) o.chars
  | connector                : k.Spelling w → Produces .connector (some k) w
  | phrase {literal text : String} :
    IsPhrase literal.toList text.toList →
    Produces .phrase (.ok (.phrase literal text)) literal.toList

-- The answer tells that there is no token.
inductive Refuses : {α : Type} → Operation α → α → Prop
  | eat       : Refuses (.eat text) false
  | key       : Refuses .key none
  | word      : Refuses .word none
  | name      : Refuses .name none
  | typeWord  : Refuses .typeWord none
  | operator  : Refuses .operator none
  | connector : Refuses .connector none
  | phrase    : Refuses .phrase (.error e)

-- A phrase is looked for where one is opened but not closed.
def FindsUnclosed : Operation α → List Char → Prop
  | phrase, cs => ∃ r, cs = '"' :: r ∧ phraseBody? r = none
  | _, _       => False

end Operation

namespace Cursor

variable {c c' : Cursor}

theorem reads_span? (h : c.span? p = some (text, c')) : Reads c text.toList c' := by
  simp only [span?] at h
  split at h <;> cases h
  case isFalse =>
    rw [String.toList_ofList]
    exact .after (List.takeWhile_prefix _)

theorem reads_operator? (h : c.operator? = some (op, c')) : Reads c op.chars c' := by
  obtain ⟨op, ho, he⟩ := Option.map_eq_some_iff.mp h
  cases he
  exact .after (Operator.chars_prefix_of_at? ho)

theorem reads_connector? (h : c.connector? = some (k, c')) :
    ∃ w, k.Spelling w ∧ Reads c w c' := by
  obtain ⟨⟨k, w⟩, hk, he⟩ := Option.map_eq_some_iff.mp h
  cases he
  exact ⟨w, Connector.at?_eq_some_iff.mp hk |>.1, .after (Connector.prefix_of_at? hk)⟩

end Cursor

namespace Session

variable {α β : Type} {s : Session} {find : Cursor → Option (β × Cursor)}

-- What an operation may do which is looking for a token: it takes the token, or nothing.
def Atomic (s : Session) (op : Operation α) : Prop :=
  (∃ w, op.Produces (s.perform op).1 w ∧ Reads s.cursor w (s.perform op).2.cursor) ∨
  (op.Refuses (s.perform op).1 ∧ (s.perform op).2 = s)

theorem atomic_take? {op : Operation (Option β)} (he : s.perform op = s.take? find)
    (hn : op.Refuses none)
    (hf : ∀ {a c}, find s.cursor = some (a, c) → ∃ w, op.Produces (some a) w ∧ Reads s.cursor w c) :
    s.Atomic op := by
  unfold Atomic
  rw [he, take?]
  cases h : find s.cursor
  case none => exact .inr ⟨hn, rfl⟩
  case some => exact .inl (hf h)

theorem atomic_eat (s : Session) (text : String) : s.Atomic (.eat text) := by
  unfold Atomic
  rw [perform]
  cases h : s.cursor.eat? text.toList
  case none => exact .inr ⟨.eat, rfl⟩
  case some =>
    obtain ⟨hp, rfl⟩ := eat?_eq_some.mp h
    exact .inl ⟨_, .eat, .after hp⟩

theorem atomic_phrase (h : ¬Operation.phrase.FindsUnclosed s.cursor.rest) : s.Atomic .phrase := by
  cases hp : Parser.phrase s.state
  case ok a t =>
    obtain ⟨u, hf, hr⟩ := Parser.describes_phrase.of_ok hp
    cases hf
    case intro literal text hf =>
      refine .inl ⟨literal.toList, ?_, ?_⟩
      · simpa [perform, run, hp] using .phrase hf
      · simpa [perform, run, hp, cursor] using hr
  case error e t =>
    have ht : t = s.state := by
      cases he : s.cursor.eat? ['"']
      case none => simp_all [Parser.phrase, Parser.expect, cursor]
      case some c =>
        obtain ⟨⟨r, hr⟩, rfl⟩ := eat?_eq_some.mp he
        obtain ⟨body, hb⟩ := Option.ne_none_iff_exists'.mp fun hn => h ⟨r, hr.symm, hn⟩
        have hc : (s.cursor.after ['"']).rest = r := by simp [Cursor.after, ← hr]
        simp_all [Parser.phrase, Parser.expect, cursor]
    refine .inr ⟨?_, ?_⟩
    · simpa [perform, run, hp] using .phrase
    · simp [perform, run, hp, ht]

theorem perform_unclosed (h : Operation.phrase.FindsUnclosed s.cursor.rest) :
    Operation.phrase.Refuses (s.perform .phrase).1 ∧
      (s.perform .phrase).2 = s.moveTo (s.cursor.after ['"']) := by
  obtain ⟨r, hr, hb⟩ := h
  have he : s.cursor.eat? ['"'] = some (s.cursor.after ['"']) :=
    eat?_eq_some.mpr ⟨⟨r, hr.symm⟩, rfl⟩
  have hc : (s.cursor.after ['"']).rest = r := by simp [Cursor.after, hr]
  rw [cursor] at he hc
  have hp : Parser.phrase s.state = .error ⟨s.cursor.offset + size s.cursor.rest, .closingQuote⟩
      { s.state with cursor := s.cursor.after ['"'] } := by
    simp [Parser.phrase, Parser.expect, cursor, he, hc, hb]
  exact ⟨by simpa [perform, run, hp] using .phrase, by simp [perform, run, hp, moveTo]⟩

-- An operation which looks for a token either finds one, and then consumes exactly the text of it,
-- or leaves everything as it is. The exception is a phrase which is opened but not closed: its
-- quote is consumed although there is no token.
theorem perform_token (s : Session) (op : Operation α) (h : op.ReadsToken) :
    (¬op.FindsUnclosed s.cursor.rest → s.Atomic op) ∧
    (op.FindsUnclosed s.cursor.rest →
      op.Refuses (s.perform op).1 ∧ (s.perform op).2 = s.moveTo (s.cursor.after ['"'])) := by
  cases op
  case phrase => exact ⟨atomic_phrase, perform_unclosed⟩
  case eat text => exact ⟨fun _ => s.atomic_eat text, nofun⟩
  case operator =>
    exact ⟨fun _ => atomic_take? rfl .operator fun h => ⟨_, .operator, reads_operator? h⟩, nofun⟩
  case connector =>
    refine ⟨fun _ => atomic_take? rfl .connector fun h => ?_, nofun⟩
    have ⟨w, hw, hr⟩ := reads_connector? h
    exact ⟨w, .connector hw, hr⟩
  case key => exact ⟨fun _ => atomic_take? rfl .key fun h => ⟨_, .key, reads_span? h⟩, nofun⟩
  case word => exact ⟨fun _ => atomic_take? rfl .word fun h => ⟨_, .word, reads_span? h⟩, nofun⟩
  case name => exact ⟨fun _ => atomic_take? rfl .name fun h => ⟨_, .name, reads_span? h⟩, nofun⟩
  case typeWord =>
    exact ⟨fun _ => atomic_take? rfl .typeWord fun h => ⟨_, .typeWord, reads_span? h⟩, nofun⟩
  all_goals exact h.elim

theorem perform_token_connector :
    Operation.connector.ReadsToken ∧ (Session.start "aNd(ä)" 0).Atomic .connector :=
  have h : Operation.connector.ReadsToken := trivial
  ⟨h, (perform_token _ _ h).1 nofun⟩

theorem perform_token_unclosed : ¬∀ (s : Session) (α : Type) (op : Operation α), op.ReadsToken →
    op.Refuses (s.perform op).1 → (s.perform op).2.cursor = s.cursor := by
  intro h
  have hu : Operation.phrase.FindsUnclosed (Session.start "\"open" 0).cursor.rest :=
    ⟨"open".toList, rfl, by decide⟩
  have ⟨hr, hm⟩ := perform_unclosed hu
  have hc := h _ _ .phrase trivial hr
  rw [hm] at hc
  exact absurd hc (by decide)

end Session

end SearchQuery
