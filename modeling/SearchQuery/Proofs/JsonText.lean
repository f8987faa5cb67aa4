import Mathlib
import SearchQuery.Json.Printer
import SearchQuery.Proofs.Literal
import SearchQuery.Proofs.Lookahead

namespace SearchQuery.Json

-- Values in which every number and every literal is one.
inductive WellFormed : Json → Prop
  | null : WellFormed .null
  | bool : WellFormed (.bool b)
  | number (hn : isNumber n.toList) (hc : ∀ c ∈ n.toList, isNumberChar c) : WellFormed (.number n)
  | string (h : Literal.Valid s) : WellFormed (.string s)
  | array (h : ∀ i ∈ is, WellFormed i) : WellFormed (.array is)
  | object (hn : ∀ m ∈ ms, Literal.Valid m.1) (hv : ∀ m ∈ ms, WellFormed m.2) :
    WellFormed (.object ms)

-- A layout which adds white space only.
structure Layout.Blank (l : Layout) : Prop where
  line  : ∀ depth, ∀ c ∈ l.line depth, isSpace c
  colon : ∀ c ∈ l.colon, isSpace c

theorem Layout.blank_compact : compact.Blank where
  line  := by simp [compact]
  colon := by simp [compact]

theorem Layout.blank_pretty : pretty.Blank where
  line  := by simp [pretty, isSpace]
  colon := by simp [pretty, isSpace]

section Reader

open Reading Text

variable {l : Layout} {g : Reading} {st : List Frame} {depth : Nat} {cs s r : List Char}

-- Reads a text from some point on.
def run? (g : Reading) (cs : List Char) : Option Reading := do
  (← Token.list? cs).foldlM next? g

theorem run?_space (h : ∀ c ∈ s, isSpace c) : run? g (s ++ r) = run? g r := by
  induction s
  case nil => rfl
  case cons c s hi =>
    have ⟨hc, hs⟩ := List.forall_mem_cons.mp h
    rw [← hi hs, run?, List.cons_append, Token.list?]
    simp [hc, run?]

theorem list?_token (hc : isSpace c = false) (h : Token.at? (c :: cs) = some (t, s)) :
    Token.list? (c :: cs) = (Token.list? ((c :: cs).drop s.length)).map (t :: ·) := by
  rw [Token.list?]
  simp only [hc, Bool.false_eq_true, if_false]
  split
  case h_1 hn => simp [h] at hn
  case h_2 t' s' ht =>
    cases h.symm.trans ht
    rfl

theorem run?_token (hc : Stops isSpace (s ++ r)) (h : Token.at? (s ++ r) = some (t, s)) :
    run? g (s ++ r) = (next? g t).bind (run? · r) := by
  have hl : Token.list? (s ++ r) = (Token.list? r).map (t :: ·) := by
    cases hs : s ++ r
    case nil => simp [hs, Token.at?] at h
    case cons c cs =>
      rw [hs] at hc h
      rw [list?_token (stops_cons.mp hc) h, ← hs, List.drop_left]
  rw [run?, hl]
  cases hr : Token.list? r <;> cases hg : next? g t <;> simp [run?, hr, hg]

-- A number or a word would go on with another character of its kind.
def isRunChar (c : Char) : Bool :=
  isNumberChar c || c.isAlpha

theorem isRunChar_of_isSpace (h : isSpace c) : isRunChar c = false := by
  simp only [isSpace, Bool.or_eq_true, decide_eq_true_eq] at h
  rcases h with ((rfl | rfl) | rfl) | rfl <;> decide

theorem plain_of_isNumberChar (h : isNumberChar c) : c ≠ '"' ∧ isSpace c = false := by
  constructor
  · rintro rfl
    exact absurd h (by decide)
  · have hr : isRunChar c := by simp [isRunChar, h]
    simpa [hr] using mt (isRunChar_of_isSpace (c := c))

theorem stops_append_space (h : ∀ c ∈ s, isSpace c) (hr : Stops isRunChar r) :
    Stops isRunChar (s ++ r) := by
  cases s
  case nil => exact hr
  case cons c s => exact stops_cons.mpr <| isRunChar_of_isSpace (h c (by simp))

theorem at?_number (hn : isNumber cs) (hc : ∀ c ∈ cs, isNumberChar c) (hr : Stops isRunChar r) :
    Token.at? (cs ++ r) = some (.scalar (.number (String.ofList cs)), cs) := by
  cases cs
  case nil => simp [isNumber] at hn
  case cons c cs =>
    have hw := takeWhile_append hc (hr.mono fun c h => by simp [isRunChar, h])
    have hd : isNumberChar c := hc c (by simp)
    rw [List.cons_append] at hw ⊢
    rw [Token.at?]
    · simp [hd, hw, hn]
    all_goals
      rintro rfl
      exact absurd hd (by decide)

theorem at?_string {s : String} (h : Literal.Valid s) :
    Token.at? (quoted s ++ r) = some (.string s, quoted s) := by
  simp [quoted, Token.at?, literal?_append h]

theorem at?_word (hw : Token.word? cs = some v) (hr : Stops isRunChar r) :
    Token.at? (cs ++ r) = some (.scalar v, cs) := by
  have ht : ([] ++ r).takeWhile Char.isAlpha = [] :=
    takeWhile_append (by simp) <| hr.mono fun c h => by simp [isRunChar, h]
  rw [List.nil_append] at ht
  unfold Token.word? at hw
  split at hw <;> cases hw
  all_goals
    simp [Token.at?, ht, isNumberChar, Char.isAlpha, Char.isDigit, Char.isLower, Char.isUpper,
      Token.word?]

theorem run?_mark (hs : isSpace c = false) (h : Token.at? (c :: r) = some (t, [c]))
    (hg : next? g t = some g') : run? g (c :: r) = run? g' r := by
  rw [← List.singleton_append, run?_token (stops_cons.mpr hs) h, hg, Option.bind_some]

-- A value is next, which may be the first one in a list.
def Starts (g : Reading) (st : List Frame) : Prop :=
  ∀ t, t ≠ .closeBracket → next? g t = start? st t

theorem starts_value : Starts (.value st) st := by
  intro t _
  rw [next?]

theorem starts_firstItem : Starts (.firstItem st) (.array [] :: st) := by
  intro t ht
  cases t <;> simp_all [next?]

theorem run?_start (hg : Starts g st) (hv : start? st t = some (.after st v))
    (hs : Stops isSpace (s ++ r)) (h : Token.at? (s ++ r) = some (t, s)) :
    run? g (s ++ r) = run? (.after st v) r := by
  have ht : t ≠ .closeBracket := by
    rintro rfl
    simp [start?] at hv
  rw [run?_token hs h, hg t ht, hv, Option.bind_some]

-- What is printed for the value is read, wherever a value is next.
def ReadsBack (l : Layout) (j : Json) : Prop :=
  ∀ {g st depth r}, Starts g st → Stops isRunChar r →
    run? g (j.print l depth ++ r) = run? (.after st j) r

theorem stops_printItems (hl : l.Blank) :
    Stops isRunChar (printItems l depth is ++ (l.line d ++ ']' :: r)) := by
  cases is
  case nil =>
    rw [printItems, List.nil_append]
    exact stops_append_space (hl.line d) (stops_cons.mpr (by decide))
  case cons =>
    rw [printItems]
    exact stops_cons.mpr (by decide)

theorem run?_printItems (hl : l.Blank) (h : ∀ i ∈ is, ReadsBack l i) :
    run? (.after (.array js :: st) j) (printItems l depth is ++ (l.line d ++ ']' :: r)) =
      run? (.after st (.array (js.reverse ++ j :: is))) r := by
  induction is generalizing js j
  case nil =>
    rw [printItems, List.nil_append, run?_space (hl.line d), run?_mark (by decide) rfl rfl]
    simp
  case cons i is hi =>
    have ⟨hf, hs⟩ := List.forall_mem_cons.mp h
    simp only [printItems, List.cons_append, List.append_assoc]
    rw [run?_mark (by decide) rfl rfl, run?_space (hl.line depth),
      hf starts_value (stops_printItems hl), hi hs]
    simp

theorem ReadsBack.array (hl : l.Blank) (h : ∀ i ∈ is, ReadsBack l i) : ReadsBack l (.array is) := by
  intro g st depth r hg hr
  have hb := hg .openBracket (by simp)
  cases is
  case nil =>
    simp only [print, List.cons_append, List.nil_append]
    rw [run?_mark (by decide) rfl hb, run?_mark (by decide) rfl rfl]
  case cons i is =>
    have ⟨hf, hs⟩ := List.forall_mem_cons.mp h
    simp only [print, List.cons_append, List.append_assoc, List.nil_append]
    rw [run?_mark (by decide) rfl hb, run?_space (hl.line _),
      hf starts_firstItem (stops_printItems hl), run?_printItems hl hs]
    simp

theorem stops_printMembers (hl : l.Blank) :
    Stops isRunChar (printMembers l depth ms ++ (l.line d ++ '}' :: r)) := by
  cases ms
  case nil =>
    rw [printMembers, List.nil_append]
    exact stops_append_space (hl.line d) (stops_cons.mpr (by decide))
  case cons =>
    rw [printMembers]
    exact stops_cons.mpr (by decide)

theorem run?_printMember (hl : l.Blank) (hg : next? g (.string m.1) = some (.colon st ms m.1))
    (hn : Literal.Valid m.1) (hv : ReadsBack l m.2) (hr : Stops isRunChar r) :
    run? g (printMember l depth m ++ r) = run? (.after (.object ms m.1 :: st) m.2) r := by
  have hs : printMember l depth m ++ r =
      quoted m.1 ++ (':' :: (l.colon ++ (print l depth m.2 ++ r))) := by
    cases m
    simp [printMember]
  rw [hs, run?_token (stops_cons.mpr (by decide)) (at?_string hn), hg, Option.bind_some,
    run?_mark (by decide) rfl rfl, run?_space hl.colon, hv starts_value hr]

theorem run?_printMembers (hl : l.Blank) (hn : ∀ m ∈ ms, Literal.Valid m.1)
    (hv : ∀ m ∈ ms, ReadsBack l m.2) :
    run? (.after (.object ns n :: st) v) (printMembers l depth ms ++ (l.line d ++ '}' :: r)) =
      run? (.after st (.object (ns.reverse ++ (n, v) :: ms))) r := by
  induction ms generalizing ns n v
  case nil =>
    rw [printMembers, List.nil_append, run?_space (hl.line d), run?_mark (by decide) rfl rfl]
    simp
  case cons m ms hi =>
    have ⟨hn, hns⟩ := List.forall_mem_cons.mp hn
    have ⟨hv, hvs⟩ := List.forall_mem_cons.mp hv
    simp only [printMembers, List.cons_append, List.append_assoc]
    rw [run?_mark (by decide) rfl rfl, run?_space (hl.line depth),
      run?_printMember hl rfl hn hv (stops_printMembers hl), hi hns hvs]
    simp

theorem ReadsBack.object (hl : l.Blank) (hn : ∀ m ∈ ms, Literal.Valid m.1)
    (hv : ∀ m ∈ ms, ReadsBack l m.2) : ReadsBack l (.object ms) := by
  intro g st depth r hg hr
  have hb := hg .openBrace (by simp)
  cases ms
  case nil =>
    simp only [print, List.cons_append, List.nil_append]
    rw [run?_mark (by decide) rfl hb, run?_mark (by decide) rfl rfl]
  case cons m ms =>
    have ⟨hn, hns⟩ := List.forall_mem_cons.mp hn
    have ⟨hv, hvs⟩ := List.forall_mem_cons.mp hv
    simp only [print, List.cons_append, List.append_assoc, List.nil_append]
    rw [run?_mark (by decide) rfl hb, run?_space (hl.line _),
      run?_printMember hl rfl hn hv (stops_printMembers hl), run?_printMembers hl hns hvs]
    simp

theorem ReadsBack.word (hw : Token.word? cs = some v) (hp : ∀ depth, v.print l depth = cs) :
    ReadsBack l v := by
  intro g st depth r hg hr
  have hs : Stops isSpace (cs ++ r) := by
    unfold Token.word? at hw
    split at hw <;> cases hw <;> exact stops_cons.mpr (by decide)
  rw [hp]
  exact run?_start hg rfl hs (at?_word hw hr)

theorem ReadsBack.number (hn : isNumber n.toList) (hc : ∀ c ∈ n.toList, isNumberChar c) :
    ReadsBack l (.number n) := by
  intro g st depth r hg hr
  have hs : Stops isSpace (n.toList ++ r) := by
    cases hd : n.toList
    case nil => simp [hd, isNumber] at hn
    case cons c cs => exact stops_cons.mpr (plain_of_isNumberChar (hc c (by simp [hd]))).2
  have ht := at?_number hn hc hr
  rw [String.ofList_toList] at ht
  exact run?_start hg rfl hs ht

theorem ReadsBack.string {s : String} (h : Literal.Valid s) : ReadsBack l (.string s) := by
  intro g st depth r hg hr
  exact run?_start hg rfl (stops_cons.mpr (by decide)) (at?_string h)

theorem WellFormed.readsBack (hl : l.Blank) (h : WellFormed j) : ReadsBack l j := by
  induction h
  case null => exact ReadsBack.word rfl fun _ => rfl
  case bool b => cases b <;> exact ReadsBack.word rfl fun _ => rfl
  case number n hn hc => exact ReadsBack.number hn hc
  case string s h => exact ReadsBack.string h
  case array is _ hi => exact ReadsBack.array hl hi
  case object ms hn _ hi => exact ReadsBack.object hl hn hi

theorem read?_render (hl : l.Blank) (h : WellFormed j) : read? (j.render l) = some j := by
  have hr : run? (.value []) (j.print l 0 ++ []) = run? (.after [] j) [] :=
    h.readsBack hl starts_value stops_nil
  rw [List.append_nil, run?, run?, Token.list?] at hr
  obtain ⟨ts, ht, hf⟩ := Option.bind_eq_some_iff.mp hr
  rw [read?, render, String.toList_ofList]
  simp [ht, hf]

end Reader

section Space

variable {l : Layout} {depth depth' : Nat} {cs s b r : List Char}

mutual

-- A text without the white space outside of its string literals.
def withoutSpace : List Char → List Char
  | []        => []
  | '"' :: cs => '"' :: restOfLiteral cs
  | c :: cs   => if isSpace c then withoutSpace cs else c :: withoutSpace cs

-- The same, where a literal is open.
def restOfLiteral : List Char → List Char
  | []              => []
  | '"' :: cs       => '"' :: withoutSpace cs
  | '\\' :: c :: cs => '\\' :: c :: restOfLiteral cs
  | c :: cs         => c :: restOfLiteral cs

end

theorem withoutSpace_space (h : ∀ c ∈ s, isSpace c) : withoutSpace (s ++ r) = withoutSpace r := by
  induction s
  case nil => rfl
  case cons c s hi =>
    have ⟨hc, hs⟩ := List.forall_mem_cons.mp h
    rw [List.cons_append, withoutSpace, if_pos hc, hi hs]
    rintro rfl
    exact absurd hc (by decide)

theorem withoutSpace_cons (hq : c ≠ '"') (hc : isSpace c = false) :
    withoutSpace (c :: r) = c :: withoutSpace r := by
  rw [withoutSpace, if_neg (by simp [hc])]
  exact hq

theorem withoutSpace_append (h : ∀ c ∈ s, c ≠ '"' ∧ isSpace c = false) :
    withoutSpace (s ++ r) = s ++ withoutSpace r := by
  induction s
  case nil => rfl
  case cons c s hi =>
    have ⟨⟨hq, hc⟩, hs⟩ := List.forall_mem_cons.mp h
    rw [List.cons_append, withoutSpace_cons hq hc, hi hs, List.cons_append]

theorem restOfLiteral_body (h : body? cs = some b) :
    ∃ r, cs = b ++ '"' :: r ∧ restOfLiteral cs = b ++ '"' :: withoutSpace r := by
  fun_induction body? cs generalizing b
  case case1 => cases h
  case case2 cs =>
    cases h
    exact ⟨cs, rfl, rfl⟩
  case case3 c cs hi =>
    have ⟨b, hb, he⟩ := Option.map_eq_some_iff.mp h
    have ⟨r, hr, hl⟩ := hi hb
    exact ⟨r, by simp [← he, hr], by simp [restOfLiteral, ← he, hl]⟩
  case case4 c cs _ _ hi =>
    have ⟨b, hb, he⟩ := Option.map_eq_some_iff.mp h
    have ⟨r, hr, hl⟩ := hi hb
    refine ⟨r, by simp [← he, hr], ?_⟩
    rw [restOfLiteral, hl, ← he, List.cons_append] <;> assumption

theorem withoutSpace_quoted {s : String} (h : Literal.Valid s) :
    withoutSpace (quoted s ++ r) = quoted s ++ withoutSpace r := by
  have ⟨t, ht, hl⟩ := restOfLiteral_body (body?_append (r := r) h)
  cases List.append_cancel_left ht
  simp [quoted, withoutSpace, hl]

-- What `l` prints for the value differs from the compact text in white space only.
def Condenses (l : Layout) (j : Json) : Prop :=
  ∀ {depth depth' r},
    withoutSpace (j.print l depth ++ r) = j.print .compact depth' ++ withoutSpace r

theorem withoutSpace_printItems (hl : l.Blank) (h : ∀ i ∈ is, Condenses l i) :
    withoutSpace (printItems l depth is ++ r) =
      printItems .compact depth' is ++ withoutSpace r := by
  induction is
  case nil => rfl
  case cons i is hi =>
    have ⟨hf, hs⟩ := List.forall_mem_cons.mp h
    simp only [printItems, List.cons_append, List.append_assoc]
    rw [withoutSpace_cons (by decide) (by decide), withoutSpace_space (hl.line _), hf, hi hs]
    rfl

theorem Condenses.array (hl : l.Blank) (h : ∀ i ∈ is, Condenses l i) : Condenses l (.array is) := by
  intro depth depth' r
  cases is
  case nil => exact withoutSpace_append (s := ['[', ']']) (by simp [isSpace])
  case cons i is =>
    have ⟨hf, hs⟩ := List.forall_mem_cons.mp h
    simp only [print, List.cons_append, List.append_assoc, List.nil_append]
    rw [withoutSpace_cons (by decide) (by decide), withoutSpace_space (hl.line _), hf,
      withoutSpace_printItems hl hs, withoutSpace_space (hl.line _),
      withoutSpace_cons (by decide) (by decide)]
    rfl

theorem withoutSpace_printMember (hl : l.Blank) (hn : Literal.Valid m.1) (hv : Condenses l m.2) :
    withoutSpace (printMember l depth m ++ r) =
      printMember .compact depth' m ++ withoutSpace r := by
  cases m
  simp only [printMember, List.cons_append, List.append_assoc]
  rw [withoutSpace_quoted hn, withoutSpace_cons (by decide) (by decide),
    withoutSpace_space hl.colon, hv]
  rfl

theorem withoutSpace_printMembers (hl : l.Blank) (hn : ∀ m ∈ ms, Literal.Valid m.1)
    (hv : ∀ m ∈ ms, Condenses l m.2) :
    withoutSpace (printMembers l depth ms ++ r) =
      printMembers .compact depth' ms ++ withoutSpace r := by
  induction ms
  case nil => rfl
  case cons m ms hi =>
    have ⟨hn, hns⟩ := List.forall_mem_cons.mp hn
    have ⟨hv, hvs⟩ := List.forall_mem_cons.mp hv
    simp only [printMembers, List.cons_append, List.append_assoc]
    rw [withoutSpace_cons (by decide) (by decide), withoutSpace_space (hl.line _),
      withoutSpace_printMember hl hn hv, hi hns hvs]
    rfl

theorem Condenses.object (hl : l.Blank) (hn : ∀ m ∈ ms, Literal.Valid m.1)
    (hv : ∀ m ∈ ms, Condenses l m.2) : Condenses l (.object ms) := by
  intro depth depth' r
  cases ms
  case nil => exact withoutSpace_append (s := ['{', '}']) (by simp [isSpace])
  case cons m ms =>
    have ⟨hn, hns⟩ := List.forall_mem_cons.mp hn
    have ⟨hv, hvs⟩ := List.forall_mem_cons.mp hv
    simp only [print, List.cons_append, List.append_assoc, List.nil_append]
    rw [withoutSpace_cons (by decide) (by decide), withoutSpace_space (hl.line _),
      withoutSpace_printMember hl hn hv, withoutSpace_printMembers hl hns hvs,
      withoutSpace_space (hl.line _), withoutSpace_cons (by decide) (by decide)]
    rfl

theorem WellFormed.condenses (hl : l.Blank) (h : WellFormed j) : Condenses l j := by
  induction h
  case null => exact withoutSpace_append (by simp [print, isSpace])
  case bool b => cases b <;> exact withoutSpace_append (by simp [print, isSpace])
  case number n _ hc => exact withoutSpace_append fun c h => plain_of_isNumberChar (hc c h)
  case string s h => exact withoutSpace_quoted h
  case array is _ hi => exact Condenses.array hl hi
  case object ms hn _ hi => exact Condenses.object hl hn hi

theorem withoutSpace_render (hl : l.Blank) (h : WellFormed j) :
    String.ofList (withoutSpace (j.render l).toList) = j.compact := by
  have hc : withoutSpace (j.print l 0 ++ []) = j.print .compact 0 ++ withoutSpace [] :=
    h.condenses hl
  rw [List.append_nil, withoutSpace, List.append_nil] at hc
  rw [render, String.toList_ofList, hc, compact, render]

end Space

end SearchQuery.Json
