import SearchQuery.Proofs.Extension

namespace SearchQuery

open Text Cursor

namespace Text

-- Of a run of blanks only the last one is kept, as a space.
def collapse : List Char → List Char
  | []      => []
  | c :: cs =>
    if isBlank c then
      if Stops isBlank cs then ' ' :: collapse cs else collapse cs
    else
      c :: collapse cs

-- No run of blanks reaches from `u` into `r`.
def Splits (u r : List Char) : Prop :=
  Stops isBlank u.reverse ∨ Stops isBlank r

variable {p : Char → Bool} {b cs r t u v w : List Char}

@[simp]
theorem collapse_nil : collapse [] = [] :=
  rfl

@[simp]
theorem collapse_cons (h : isBlank c = false) : collapse (c :: cs) = c :: collapse cs := by
  simp [collapse, h]

theorem collapse_blank (hc : isBlank c) (hs : Stops isBlank cs) :
    collapse (c :: cs) = ' ' :: collapse cs := by
  simp [collapse, hc, hs]

theorem collapse_blanks (hc : isBlank c) (hs : ¬Stops isBlank cs) :
    collapse (c :: cs) = collapse cs := by
  simp [collapse, hc, hs]

theorem isBlank_space_eq : isBlank ' ' = true :=
  rfl

theorem stops_reverse_append (h : v ≠ []) : Stops p (u ++ v).reverse ↔ Stops p v.reverse := by
  rw [List.reverse_append]
  exact stops_append (by simpa using h)

theorem stops_reverse_of_forall (hw : ∀ c ∈ w, p c = false) : Stops p w.reverse :=
  fun c hc => hw c (by simpa using List.mem_of_mem_head? hc)

namespace Splits

theorem nil_left : Splits [] r :=
  .inl (by simp)

theorem left (h : Splits u (v ++ r)) : Splits u v :=
  h.imp_right .of_append

theorem append (hu : Splits u (v ++ r)) (hv : Splits v r) : Splits (u ++ v) r := by
  by_cases n : v = []
  case pos => simpa [n] using hu
  case neg => exact hv.imp_left (stops_reverse_append n).mpr

theorem append_left (hw : ∀ c ∈ w, isBlank c = false) (h : Splits u r) : Splits (w ++ u) r :=
  append (.inl <| stops_reverse_of_forall hw) h

end Splits

-- A text may be cut anywhere but inside of a run.
theorem collapse_append (h : Splits u r) : collapse (u ++ r) = collapse u ++ collapse r := by
  induction u
  case nil => rfl
  case cons c u hi =>
    by_cases n : u = []
    case pos =>
      subst n
      cases hc : isBlank c
      case false => simp [hc]
      case true =>
        have hr : Stops isBlank r := h.resolve_left (by simp [hc])
        simp [collapse_blank hc hr, collapse_blank hc stops_nil]
    case neg =>
      have hi := hi <| h.imp_left (stops_reverse_append (u := [c]) n).mp
      cases hc : isBlank c
      case false => simp [hc, hi]
      case true =>
        by_cases hs : Stops isBlank u
        case pos => simp [collapse_blank hc hs, collapse_blank hc ((stops_append n).mpr hs), hi]
        case neg =>
          simp [collapse_blanks hc hs, collapse_blanks hc (mt (stops_append n).mp hs), hi]

-- A beginning of blanks or of other characters can be collapsed on its own.
theorem Splits.behind (h : Splits u r) (hr : Stops isBlank (u ++ r)) :
    Splits (b ++ u) r ∧ collapse (b ++ u) = collapse b ++ collapse u :=
  ⟨.append (.inr hr) h, collapse_append (.left (.inr hr))⟩

@[simp]
theorem collapse_append_left (hw : ∀ c ∈ w, isBlank c = false) :
    collapse (w ++ r) = w ++ collapse r := by
  induction w <;> simp_all

theorem collapse_eq_self (hw : ∀ c ∈ w, isBlank c = false) : collapse w = w := by
  simpa using collapse_append_left (r := []) hw

-- Blanks are one of a kind once they are collapsed.
theorem head?_collapse :
    (collapse cs).head? = cs.head?.map fun c => if isBlank c then ' ' else c := by
  induction cs
  case nil => rfl
  case cons c cs hi =>
    cases hc : isBlank c
    case false => simp [hc]
    case true =>
      by_cases hs : Stops isBlank cs
      case pos => simp [collapse_blank hc hs, hc]
      case neg =>
        cases cs
        case nil => simp at hs
        case cons d cs =>
          have hd : isBlank d := by simpa using hs
          simp [collapse_blanks hc hs, hi, hc, hd]

theorem collapse_eq_nil_iff : collapse cs = [] ↔ cs = [] := by
  rw [← List.head?_eq_none_iff, head?_collapse]
  simp

theorem head?_collapse_iff (hc : isBlank c = false) :
    (collapse cs).head? = some c ↔ cs.head? = some c := by
  rw [head?_collapse]
  cases cs
  case nil => simp
  case cons d cs =>
    cases hd : isBlank d
    case false => simp [hd]
    case true =>
      have hs : ' ' ≠ c := by
        intro h
        simp [← h, isBlank_space_eq] at hc
      have hd : d ≠ c := by
        intro h
        simp [h, hc] at hd
      simp_all

-- What makes no difference between blanks is true of how both texts start, or of neither.
theorem forall_head?_collapse {P : Char → Prop} (hp : ∀ c, isBlank c → (P c ↔ P ' ')) :
    (∀ c ∈ (collapse cs).head?, P c) ↔ ∀ c ∈ cs.head?, P c := by
  rw [head?_collapse]
  cases cs
  case nil => simp
  case cons c cs =>
    cases hc : isBlank c
    case false => simp [hc]
    case true => simp [hc, hp c hc]

theorem stops_collapse (hp : ∀ c, isBlank c → p c = p ' ') : Stops p (collapse cs) ↔ Stops p cs :=
  forall_head?_collapse fun c hc => by rw [hp c hc]

theorem stops_isBlank_collapse : Stops isBlank (collapse cs) ↔ Stops isBlank cs :=
  stops_collapse fun _ hc => hc.trans isBlank_space_eq.symm

theorem isBlank_collapse (hb : IsBlank b) : IsBlank (collapse b) := by
  induction b
  case nil => exact hb
  case cons c b hi =>
    have hi := hi fun d hd => hb d (by simp [hd])
    have hc := hb c (by simp)
    by_cases hs : Stops isBlank b
    case pos => exact collapse_blank hc hs ▸ isBlank_append.mpr ⟨isBlank_space, hi⟩
    case neg => exact collapse_blanks hc hs ▸ hi

-- What starts with a word after blanks were collapsed has started with it before.
theorem exists_of_collapse_eq_append (hw : ∀ c ∈ w, isBlank c = false) (h : collapse cs = w ++ t) :
    ∃ r, cs = w ++ r ∧ collapse r = t := by
  induction w generalizing cs
  case nil => exact ⟨cs, rfl, h⟩
  case cons c w hi =>
    have hc := hw c (by simp)
    have hh : cs.head? = some c := (head?_collapse_iff hc).mp (by simp [h])
    have ⟨r, hr⟩ := List.head?_eq_some_iff.mp hh
    subst hr
    simp only [collapse_cons hc, List.cons_append, List.cons.injEq, true_and] at h
    have ⟨r, hr, ht⟩ := hi (fun d hd => hw d (by simp [hd])) h
    exact ⟨r, by simp [hr], ht⟩

theorem mem_of_mem_collapse (h : c ∈ collapse cs) : c = ' ' ∨ c ∈ cs := by
  induction cs
  case nil => simp at h
  case cons d cs hi =>
    unfold collapse at h
    grind

theorem dropWhile_collapse : (collapse cs).dropWhile isBlank = collapse (cs.dropWhile isBlank) := by
  have ⟨b, r, he, hb, hr⟩ := exists_span isBlank cs
  subst he
  rw [dropWhile_append hb hr, collapse_append (.inr hr),
    dropWhile_append (isBlank_collapse hb) (stops_isBlank_collapse.mpr hr)]

theorem collapse_concat_blank (hc : isBlank c) (hu : ¬Stops isBlank u.reverse) :
    collapse (u ++ [c]) = collapse u := by
  induction u
  case nil => simp at hu
  case cons d u hi =>
    by_cases n : u = []
    case pos =>
      have hd : isBlank d := by simpa [n] using hu
      have hs : ¬Stops isBlank [c] := by simpa using hc
      simp [n, collapse_blanks hd hs, collapse_blank hd stops_nil, collapse_blank hc stops_nil]
    case neg =>
      have hi := hi <| mt (stops_reverse_append (u := [d]) n).mpr hu
      cases hd : isBlank d
      case false => simp [hd, hi]
      case true =>
        by_cases hs : Stops isBlank u
        case pos => simp [collapse_blank hd hs, collapse_blank hd ((stops_append n).mpr hs), hi]
        case neg =>
          simp [collapse_blanks hd hs, collapse_blanks hd (mt (stops_append n).mp hs), hi]

theorem collapse_reverse : collapse cs.reverse = (collapse cs).reverse := by
  induction cs
  case nil => rfl
  case cons c cs hi =>
    rw [List.reverse_cons]
    cases hc : isBlank c
    case false => simp [collapse_append (u := cs.reverse) (r := [c]) (.inr (by simpa)), hc, hi]
    case true =>
      by_cases hs : Stops isBlank cs
      case pos =>
        rw [collapse_append (.inl (by simpa using hs)), hi, collapse_blank hc hs,
          collapse_blank hc stops_nil]
        simp
      case neg => rw [collapse_concat_blank hc (by simpa using hs), collapse_blanks hc hs, hi]

theorem trim_collapse : trim (collapse cs) = collapse (trim cs) := by
  simp [trim, dropWhile_collapse, ← collapse_reverse]

theorem mem_of_mem_trim (h : c ∈ trim cs) : c ∈ cs := by
  have h : c ∈ (cs.dropWhile isBlank).reverse.dropWhile isBlank := by simpa [trim] using h
  have h := (List.dropWhile_suffix isBlank).subset h
  exact (List.dropWhile_suffix isBlank).subset (List.mem_reverse.mp h)

end Text

variable {n : Nat} {scope : Scope} {b cs r u w : List Char}

theorem not_isBlank_of_isKeyChar (h : isKeyChar c) : isBlank c = false :=
  not_isBlank_of_isWordChar (isWordChar_of_isKeyChar h)

theorem not_isBlank_of_isNameChar (h : isNameChar c) : isBlank c = false := by
  by_contra hb
  have := not_isNameChar_of_isBlank (by simpa using hb)
  simp [h] at this

theorem not_isBlank_of_isTypeChar (h : isTypeChar c) : isBlank c = false := by
  by_contra hb
  have := not_isTypeChar_of_isBlank (by simpa using hb)
  simp [h] at this

theorem stops_isWordChar_collapse : Stops isWordChar (collapse cs) ↔ Stops isWordChar cs :=
  stops_collapse fun _ hc => by simp [isWordChar, hc, isBlank_space_eq]

theorem stops_isNameChar_collapse : Stops isNameChar (collapse cs) ↔ Stops isNameChar cs :=
  stops_collapse fun _ hc => by rw [not_isNameChar_of_isBlank hc]; rfl

theorem stops_isTypeChar_collapse : Stops isTypeChar (collapse cs) ↔ Stops isTypeChar cs :=
  stops_collapse fun _ hc => by rw [not_isTypeChar_of_isBlank hc]; rfl

theorem Operator.chars_not_blank (op : Operator) : ∀ c ∈ op.chars, isBlank c = false := by
  cases op <;> simp [chars, isBlank, blankRanges]

theorem Operator.Longest.collapse {op : Operator} (h : op.Longest cs) :
    op.Longest (collapse cs) := by
  cases cs
  case nil => exact h
  case cons c cs =>
    cases hc : isBlank c
    case false => exact h.congr (by simp [hc])
    case true => exact .of_head? (c := ' ') (by simp [head?_collapse, hc]) (by simp)

theorem Connector.Spelling.not_blank (h : Connector.Spelling k w) : ∀ c ∈ w, isBlank c = false :=
  fun c hc => not_isBlank_of_isKeyChar (h.isKeyChar c hc)

theorem Connector.at?_collapse : at? (collapse cs) = at? cs := by
  refine Option.ext fun ⟨k, w⟩ => ?_
  rw [at?_eq_some_iff, at?_eq_some_iff]
  refine and_congr_right fun hw => ?_
  constructor
  case mp =>
    intro ⟨t, he, ht⟩
    have ⟨r, hr, hc⟩ := exists_of_collapse_eq_append hw.not_blank he
    exact ⟨r, hr, stops_isWordChar_collapse.mp (hc ▸ ht)⟩
  case mpr =>
    intro ⟨r, he, hr⟩
    exact ⟨_, he ▸ collapse_append_left hw.not_blank, stops_isWordChar_collapse.mpr hr⟩

theorem Bracket.keyword_not_blank (br : Bracket) : ∀ c ∈ br.keyword, isBlank c = false := by
  cases br <;> simp [keyword, isBlank, blankRanges]

theorem Bracket.opens_collapse {br : Bracket} : br.opens (collapse cs) ↔ br.opens cs := by
  have hb : isBlank '[' = false := rfl
  rw [opens_iff, opens_iff]
  constructor
  case mp =>
    intro ⟨w, r, he, hw⟩
    have ⟨t, ht, hc⟩ := exists_of_collapse_eq_append br.keyword_not_blank he
    have hd := congrArg (·.dropWhile isBlank) hc
    simp only [dropWhile_collapse, dropWhile_append hw (stops_cons.mpr hb)] at hd
    have hd : (t.dropWhile isBlank).head? = some '[' := (head?_collapse_iff hb).mp (by simp [hd])
    have ⟨v, hv⟩ := List.head?_eq_some_iff.mp hd
    refine ⟨t.takeWhile isBlank, v, ?_, fun _ => List.mem_takeWhile_imp⟩
    rw [ht, ← hv, List.takeWhile_append_dropWhile]
  case mpr =>
    intro ⟨w, r, he, hw⟩
    refine ⟨collapse w, collapse r, ?_, isBlank_collapse hw⟩
    have hs : Splits w ('[' :: r) := .inr (by simpa using hb)
    rw [he, collapse_append_left br.keyword_not_blank, collapse_append hs, collapse_cons hb]

theorem head?_collapse_close :
    (∀ c ∈ (collapse r).head?, c = ')') ↔ ∀ c ∈ r.head?, c = ')' := by
  refine forall_head?_collapse fun c hc => iff_of_false ?_ (by simp)
  intro h
  simp [h, isBlank, blankRanges] at hc

theorem Scope.ends_collapse : scope.Ends (collapse r) ↔ scope.Ends r := by
  simp only [Ends, head?_collapse_close, Bracket.opens_collapse]

theorem Parser.typeKeyword_not_blank : ∀ c ∈ typeKeyword, isBlank c = false := by
  simp [typeKeyword, isBlank, blankRanges]

theorem Parser.opensTypeClause_collapse : opensTypeClause (collapse cs) ↔ opensTypeClause cs := by
  have hh (r : List Char) : (∀ c ∈ (collapse r).head?, c ∉ ['>', '<', '=']) ↔
      ∀ c ∈ r.head?, c ∉ ['>', '<', '='] := by
    refine forall_head?_collapse fun c hc => iff_of_true ?_ (by simp)
    intro h
    simp at h
    rcases h with h | h | h <;> simp [h, isBlank, blankRanges] at hc
  rw [opensTypeClause_iff, opensTypeClause_iff]
  constructor
  case mp =>
    rintro ⟨t, he, ht⟩
    obtain ⟨r, hr, hc⟩ := exists_of_collapse_eq_append typeKeyword_not_blank he
    exact ⟨r, hr, (hh r).mp (hc ▸ ht)⟩
  case mpr =>
    rintro ⟨r, he, hr⟩
    exact ⟨_, he ▸ collapse_append_left typeKeyword_not_blank, (hh r).mpr hr⟩

end SearchQuery
