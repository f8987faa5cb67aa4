import SearchQuery.CommandLine.Run
import SearchQuery.Proofs.Listing
import SearchQuery.Proofs.Preservation
import SearchQuery.Proofs.RoundTrip

namespace SearchQuery

namespace Text

-- The text has no escape character in it, and so changes nothing about a terminal.
def IsInert (s : String) : Prop :=
  '\x1b' ∉ s.toList

instance : Decidable (IsInert s) :=
  inferInstanceAs (Decidable ('\x1b' ∉ s.toList))

variable {s t : String} {cs : List Char}

theorem isInert_empty : IsInert "" :=
  nofun

@[simp]
theorem isInert_append : IsInert (s ++ t) ↔ IsInert s ∧ IsInert t := by
  simp [IsInert]

@[simp]
theorem isInert_ofList : IsInert (.ofList cs) ↔ '\x1b' ∉ cs := by
  simp [IsInert]

-- A literal is the text of its characters, which are quicker to look through than the text.
theorem isInert_literal (h : '\x1b' ∉ cs) : IsInert (.ofList cs) :=
  isInert_ofList.mpr h

theorem isInert_join {ss : List String} (h : ∀ s ∈ ss, IsInert s) : IsInert (String.join ss) := by
  simpa [IsInert] using h

theorem isInert_of_forall {p : Char → Bool} (h : ∀ c ∈ s.toList, p c) (hp : p '\x1b' = false) :
    IsInert s :=
  fun hm => by simpa [hp] using h _ hm

theorem isInert_nat (n : Nat) : IsInert (toString n) := by
  refine isInert_of_forall (p := Char.isDigit) (fun c hc => ?_) (by decide)
  have hc : c ∈ Nat.toDigits 10 n := by simpa using hc
  exact Nat.isDigit_of_mem_toDigits (by decide) (by decide) hc

theorem isInert_bool (b : Bool) : IsInert (toString b) := by
  cases b <;> exact isInert_literal (by decide)

theorem not_mem_toDigits (n : Nat) : '\x1b' ∉ Nat.toDigits 16 n := by
  induction n using Nat.strong_induction_on
  case h n hi =>
    by_cases hn : n < 16
    case pos => simp [Nat.toDigits_of_lt_base hn]
    case neg =>
      rw [Nat.toDigits_of_base_le (by decide) (by omega), List.mem_append, not_or]
      exact ⟨hi (n / 16) (by omega), by simp⟩

-- An escape character cannot be seen, so its code is written between quotes.
theorem not_mem_quoteChar (c : Char) : '\x1b' ∉ quoteChar c := by
  unfold quoteChar
  split
  case h_7 =>
    split
    case isTrue => simpa using not_mem_toDigits c.toNat
    case isFalse hc =>
      intro h
      rw [← List.mem_singleton.mp h] at hc
      exact hc (by decide)
  all_goals decide

theorem isInert_quoted (s : String) : IsInert (quoted s) := by
  have hb : '\x1b' ∉ s.toList.flatMap quoteChar := by simp [not_mem_quoteChar]
  simp only [quoted, isInert_append]
  exact ⟨⟨isInert_literal (by decide), isInert_ofList.mpr hb⟩, isInert_literal (by decide)⟩

end Text

open Text

namespace Json

variable {l : Layout} {depth : Nat} {cs : List Char} {j : Json}

-- A control character has to be escaped, and no escape is made of one.
theorem not_mem_of_pieces? (h : Literal.pieces? cs = some ps) : '\x1b' ∉ cs := by
  fun_induction Literal.pieces? cs generalizing ps
  case case1 => simp
  case case2 a b c d cs hi =>
    obtain ⟨n, hn, h⟩ := Option.bind_eq_some_iff.mp h
    obtain ⟨ps, hp, _⟩ := Option.bind_eq_some_iff.mp h
    have hx : '\x1b' ∉ [a, b, c, d] := by
      intro hm
      obtain ⟨v, hv⟩ := Literal.exists_hexValue? hn hm
      simp [hexValue?] at hv
    simp only [List.mem_cons, not_or] at hx ⊢
    exact ⟨by decide, by decide, hx.1, hx.2.1, hx.2.2.1, hx.2.2.2.1, hi hp⟩
  case case3 e cs _ hi =>
    obtain ⟨c, he, h⟩ := Option.bind_eq_some_iff.mp h
    obtain ⟨ps, hp, _⟩ := Option.bind_eq_some_iff.mp h
    simp only [List.mem_cons, not_or]
    refine ⟨by decide, ?_, hi hp⟩
    rintro rfl
    exact absurd he (by simp [Literal.escaped?, Literal.shortEscapes])
  case case4 => cases h
  case case5 c cs _ _ hc hi =>
    obtain ⟨ps, hp, _⟩ := Option.bind_eq_some_iff.mp h
    simp only [List.mem_cons, not_or]
    refine ⟨?_, hi hp⟩
    rintro rfl
    exact hc (by decide)

theorem not_mem_quoted {s : String} (h : Literal.Valid s) : '\x1b' ∉ quoted s := by
  have ⟨_, hp⟩ := Option.isSome_iff_exists.mp h
  simpa [quoted] using not_mem_of_pieces? hp

def PrintsInert (l : Layout) (j : Json) : Prop :=
  ∀ depth, '\x1b' ∉ j.print l depth

theorem not_mem_of_isSpace (h : ∀ c ∈ cs, isSpace c) : '\x1b' ∉ cs :=
  fun hm => absurd (h _ hm) (by decide)

theorem Layout.Blank.not_mem_line (hl : l.Blank) (depth : Nat) : '\x1b' ∉ l.line depth :=
  not_mem_of_isSpace (hl.line depth)

theorem not_mem_printItems (hl : l.Blank) (h : ∀ i ∈ is, PrintsInert l i) :
    '\x1b' ∉ printItems l depth is := by
  induction is
  case nil => simp [printItems]
  case cons i is hi =>
    obtain ⟨hf, hs⟩ := List.forall_mem_cons.mp h
    simpa [printItems] using ⟨hl.not_mem_line _, hf depth, hi hs⟩

theorem not_mem_printMember (hl : l.Blank) (hn : Literal.Valid m.1) (hv : PrintsInert l m.2) :
    '\x1b' ∉ printMember l depth m := by
  cases m
  simpa [printMember] using ⟨not_mem_quoted hn, not_mem_of_isSpace hl.colon, hv depth⟩

theorem not_mem_printMembers (hl : l.Blank) (hn : ∀ m ∈ ms, Literal.Valid m.1)
    (hv : ∀ m ∈ ms, PrintsInert l m.2) : '\x1b' ∉ printMembers l depth ms := by
  induction ms
  case nil => simp [printMembers]
  case cons m ms hi =>
    obtain ⟨hn, hns⟩ := List.forall_mem_cons.mp hn
    obtain ⟨hv, hvs⟩ := List.forall_mem_cons.mp hv
    simpa [printMembers] using ⟨hl.not_mem_line _, not_mem_printMember hl hn hv, hi hns hvs⟩

theorem WellFormed.printsInert (hl : l.Blank) (h : WellFormed j) : PrintsInert l j := by
  induction h <;> intro depth
  case null => simp [print]
  case bool b => cases b <;> simp [print]
  case number n _ hc =>
    intro h
    exact absurd (hc _ h) (by decide)
  case string s h => simpa [print] using not_mem_quoted h
  case array is _ hi =>
    cases is
    case nil => simp [print]
    case cons i is =>
      obtain ⟨hf, hs⟩ := List.forall_mem_cons.mp hi
      simpa [print] using
        ⟨hl.not_mem_line _, hf _, not_mem_printItems hl hs, hl.not_mem_line _⟩
  case object ms hn _ hi =>
    cases ms
    case nil => simp [print]
    case cons m ms =>
      obtain ⟨hn, hns⟩ := List.forall_mem_cons.mp hn
      obtain ⟨hv, hvs⟩ := List.forall_mem_cons.mp hi
      simpa [print] using
        ⟨hl.not_mem_line _, not_mem_printMember hl hn hv, not_mem_printMembers hl hns hvs,
          hl.not_mem_line _⟩

theorem WellFormed.isInert_render (hl : l.Blank) (h : WellFormed j) : IsInert (j.render l) := by
  simpa [render] using h.printsInert hl 0

end Json

theorem Document.isInert_encode (d : Document) :
    IsInert d.encode.pretty ∧ IsInert d.encode.compact :=
  ⟨d.wellFormed_encode.isInert_render Json.Layout.blank_pretty,
    d.wellFormed_encode.isInert_render Json.Layout.blank_compact⟩

theorem Expected.isInert_text (x : Expected) : IsInert x.text := by
  cases x <;> exact isInert_literal (by decide)

theorem ParseError.isInert_message (e : ParseError) : IsInert e.message := by
  unfold message
  simp only [isInert_append]
  exact ⟨⟨⟨isInert_literal (by decide), isInert_nat e.offset⟩, isInert_literal (by decide)⟩,
    e.expected.isInert_text⟩

theorem IsDottedName.isInert {name : String} (h : IsDottedName name) : IsInert name := by
  have hn : IsName name.toList := isName_iff.mpr (by simpa using h)
  exact isInert_of_forall hn.chars (by decide)

theorem IsTypeValue.isInert {value : String} (h : IsTypeValue value) : IsInert value := by
  refine isInert_of_forall (p := Cursor.isTypeChar) (fun c hc => ?_) (by decide)
  simpa [Cursor.isTypeChar, or_assoc] using h.2 c hc

namespace Log

structure Record.IsInert (r : Record) : Prop where
  target : Text.IsInert r.target
  text   : Text.IsInert r.text

theorem isInert_ofNote {n : Note} (h : n.WellFormed) : (ofNote n).IsInert := by
  refine ⟨?_, ?_⟩
  case refine_1 => cases n <;> exact isInert_literal (by decide)
  case refine_2 =>
    cases n
    case junction j offset =>
      have hj : Text.IsInert (junctionName j) := by
        cases j
        case connector k => cases k <;> exact isInert_literal (by decide)
        all_goals exact isInert_literal (by decide)
      simp only [ofNote, isInert_append]
      exact ⟨⟨⟨isInert_literal (by decide), hj⟩, isInert_literal (by decide)⟩, isInert_nat offset⟩
    case typeFilter value =>
      simp only [ofNote, isInert_append]
      exact ⟨isInert_literal (by decide), IsTypeValue.isInert h⟩
    case facet name filtered =>
      simp only [ofNote, isInert_append]
      exact ⟨⟨⟨⟨isInert_literal (by decide), IsDottedName.isInert h⟩, isInert_literal (by decide)⟩,
        isInert_bool filtered⟩, isInert_literal (by decide)⟩
    case nestedFilter path =>
      simp only [ofNote, isInert_append]
      exact ⟨isInert_literal (by decide), IsDottedName.isInert h⟩
    case fragment f =>
      simp only [ofNote, isInert_append]
      exact ⟨isInert_literal (by decide), isInert_quoted _⟩

theorem isInert_ofQuery (text : String) : (ofQuery text).IsInert where
  target := isInert_literal (by decide)
  text   := isInert_append.mpr ⟨isInert_literal (by decide), isInert_quoted _⟩

theorem isInert_optionalText (s : Option String) : Text.IsInert (optionalText s) := by
  cases s
  case none => exact isInert_literal (by decide)
  case some s =>
    simp only [optionalText, isInert_append]
    exact ⟨⟨isInert_literal (by decide), isInert_quoted s⟩, isInert_literal (by decide)⟩

theorem isInert_ofDocument (d : Document) : (ofDocument d).IsInert where
  target := isInert_literal (by decide)
  text   := by
    simp only [ofDocument, isInert_append]
    exact ⟨⟨⟨⟨⟨isInert_literal (by decide), isInert_nat _⟩, isInert_literal (by decide)⟩,
      isInert_nat _⟩, isInert_literal (by decide)⟩, isInert_optionalText d.freeText⟩

theorem isInert_ofCompilation (options : CompilerOptions) (text : String) :
    ∀ r ∈ ofCompilation text (compileNoting options text), r.IsInert := by
  intro r hr
  simp only [ofCompilation, List.mem_append, List.mem_cons, List.mem_map, Option.mem_toList,
    Option.map_eq_some_iff] at hr
  rcases hr with (rfl | ⟨n, hn, rfl⟩) | ⟨d, _, rfl⟩
  · exact isInert_ofQuery text
  · exact isInert_ofNote (Query.wellFormed_notes options.maxDepth text n hn)
  · exact isInert_ofDocument d

end Log

end SearchQuery
