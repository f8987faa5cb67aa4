import SearchQuery.Proofs.Slice

namespace SearchQuery.Escaping

-- A text is nothing, or starts with a pair, or with a character that starts no pair.
@[elab_as_elim]
theorem pair_induction {motive : List Char → Prop} (nil : motive [])
    (pair : ∀ c cs, c = '&' ∨ c = '|' → motive cs → motive (c :: c :: cs))
    (cons : ∀ c cs, ¬((c = '&' ∨ c = '|') ∧ cs.head? = some c) → motive cs → motive (c :: cs))
    (cs : List Char) : motive cs :=
  match cs with
  | [] => nil
  | [c] => cons c [] (by simp) nil
  | c :: d :: cs =>
    if h : (c = '&' ∨ c = '|') ∧ d = c then
      h.2 ▸ pair c cs h.1 (pair_induction nil pair cons cs)
    else
      cons c (d :: cs) (by simpa using h) (pair_induction nil pair cons (d :: cs))

-- No pair starts at the end of the first text and ends at the start of the second.
def Apart (cs ds : List Char) : Prop :=
  ∀ c, c = '&' ∨ c = '|' → ¬(cs.getLast? = some c ∧ ds.head? = some c)

variable {e e' : Escaping} {c : Char} {cs ds p : List Char} {ps : List (List Char)}

theorem Apart.of_cons (h : Apart (c :: cs) ds) : Apart cs ds := by
  intro d hd ⟨hc, hh⟩
  exact h d hd ⟨by simp [List.getLast?_cons, hc], hh⟩

theorem encode_append (h : Apart cs ds) : e.encode (cs ++ ds) = e.encode cs ++ e.encode ds := by
  induction cs using pair_induction
  case nil => rfl
  case pair c cs hc hi =>
    simp [encode_pair e hc, hi h.of_cons.of_cons]
  case cons c cs hn hi =>
    have hn' : ¬((c = '&' ∨ c = '|') ∧ (cs ++ ds).head? = some c) := by
      rintro ⟨hc, hh⟩
      cases cs
      case nil  => exact h c hc ⟨rfl, hh⟩
      case cons => exact hn ⟨hc, hh⟩
    rw [List.cons_append, encode_cons e hn', encode_cons e hn, hi h.of_cons, List.append_assoc]

theorem encode_congr (h : ∀ c ∈ cs, e.escapes c = e'.escapes c) : e.encode cs = e'.encode cs := by
  induction cs using pair_induction
  case nil => rfl
  case pair c cs hc hi =>
    rw [encode_pair e hc, encode_pair e' hc, hi fun d hd => h d (by simp [hd])]
  case cons c cs hn hi =>
    rw [encode_cons e hn, encode_cons e' hn, h c (by simp), hi fun d hd => h d (by simp [hd])]

-- The longest pieces of a text in which all characters are kept, or none is.
def pieces (e : Escaping) (cs : List Char) : List (List Char) :=
  cs.splitBy fun c d => e.keeps c == e.keeps d

def encodePiece (e : Escaping) (p : List Char) : List Char :=
  if p.all e.keeps then p else value.encode p

theorem not_keeps_of_pair (h : c = '&' ∨ c = '|') : ¬e.keeps c := by
  rcases h with rfl | rfl <;> cases e <;> simp [keeps]

theorem encode_of_keeps (h : ∀ c ∈ p, e.keeps c) : e.encode p = p := by
  refine encode_eq_self_iff.mpr fun r hr hi => ?_
  cases hr
  case char c _ hc => simp [h c (hi.subset (by simp))] at hc
  case and => exact not_keeps_of_pair (.inl rfl) (h '&' (hi.subset (by simp)))
  case or  => exact not_keeps_of_pair (.inr rfl) (h '|' (hi.subset (by simp)))

theorem encode_of_not_keeps (h : ∀ c ∈ p, ¬e.keeps c) : e.encode p = value.encode p := by
  refine encode_congr fun c hc => ?_
  have hv : value.keeps c = false := rfl
  simp [escapes, h c hc, hv]

-- The first character of a piece tells whether the whole piece is kept.
theorem encode_piece (h : p.IsChain fun c d => e.keeps c == e.keeps d) :
    e.encode p = e.encodePiece p := by
  cases p
  case nil => rfl
  case cons c p =>
    have hk : ∀ d ∈ c :: p, e.keeps d = e.keeps c :=
      h.induction (e.keeps · = e.keeps c) _ (fun a b hab ha => by simp_all) fun _ => rfl
    cases hc : e.keeps c
    case true =>
      have hk : ∀ d ∈ c :: p, e.keeps d := fun d hd => (hk d hd).trans hc
      rw [encodePiece, if_pos (List.all_eq_true.mpr hk), encode_of_keeps hk]
    case false =>
      have hk : ∀ d ∈ c :: p, ¬e.keeps d := fun d hd => by simp [hk d hd, hc]
      rw [encodePiece, if_neg (by simp [hc]), encode_of_not_keeps hk]

-- A pair consists of like characters, so it does not reach from one piece into the next.
theorem encode_eq_pieces (h : e.pieces cs = ps) : e.encode cs = ps.flatMap e.encodePiece := by
  obtain ⟨rfl, hn, hp, hc⟩ := List.splitBy_eq_iff.mp h
  clear h
  induction ps
  case nil => rfl
  case cons p ps hi =>
    have ha : Apart p ps.flatten := by
      rintro c - ⟨hl, hh⟩
      cases ps
      case nil => simp at hh
      case cons q ps =>
        obtain ⟨hp, hq, hne⟩ := (List.isChain_cons.mp hc).1 q rfl
        have hl : p.getLast hp = c := by simpa [List.getLast?_eq_some_getLast hp] using hl
        have hh : q.head hq = c := by simpa [List.head?_append, List.head?_eq_some_head hq] using hh
        simp [hl, hh] at hne
    have hi := hi (by simp_all) (fun q hq => hp q (by simp [hq])) hc.tail
    rw [List.flatten_cons, encode_append ha, encode_piece (hp p (by simp)), hi, List.flatMap_cons]

-- Escaping a text is escaping its parts one by one, as long as they are not cut within a pair. So it
-- is also to escape, as if it were a value, each longest piece without a kept character, and to
-- leave the kept characters as they are.
theorem apply_piecewise (e : Escaping) :
    (∀ s t : String, Apart s.toList t.toList → e.apply (s ++ t) = e.apply s ++ e.apply t) ∧
    ∀ s : String, e.apply s = String.ofList ((e.pieces s.toList).flatMap e.encodePiece) := by
  refine ⟨fun s t h => ?_, fun s => ?_⟩
  · rw [← String.toList_inj, String.toList_append]
    simp only [toList_apply, String.toList_append, encode_append h]
  · rw [apply, encode_eq_pieces rfl]

-- Two characters do not make a pair if they differ.
theorem apply_piecewise_between :
    Apart "(a&".toList "|b)".toList ∧
    freeText.apply ("(a&" ++ "|b)") = freeText.apply "(a&" ++ freeText.apply "|b)" := by
  have h : Apart "(a&".toList "|b)".toList := by
    rintro c (rfl | rfl) ⟨hl, hh⟩
    case inl => exact absurd hh (by decide)
    case inr => exact absurd hl (by decide)
  exact ⟨h, (apply_piecewise .freeText).1 _ _ h⟩

example : freeText.apply "(&&)&(a:b)" = "(\\&&)&(a\\:b)" := by decide +kernel

end SearchQuery.Escaping
