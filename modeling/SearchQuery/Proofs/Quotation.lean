import SearchQuery.Proofs.Rendering

namespace SearchQuery

open Text Cursor

-- The text `u` is read as the phrase `a`. Its closing quote tells that it ends, whatever follows.
inductive Atom.PhraseFound : Atom → List Char → List Char → Prop
  | intro {literal text : String} :
    IsPhrase literal.toList text.toList → PhraseFound (.phrase literal text) literal.toList r

inductive Atom.PhraseFails : List Char → Expected → List Char → Prop
  | unopened :
    r.head? ≠ some '"' → PhraseFails [] .value r
  | unclosed :
    phraseBody? u = none → PhraseFails ('"' :: u) .closingQuote []

namespace Parser

theorem describes_phrase : Describes Atom.PhraseFound Atom.PhraseFails phrase where
  accepts h := by
    cases h
    case intro h => simpa using accepts_phrase h
  rejects h := by
    cases h
    case unopened h => exact .of_here fun _ _ => (rejects_expect_char h).bind_left
    case unclosed h => exact rejects_phrase h
  decides cs := by
    by_cases hq : cs.head? = some '"'
    case neg => exact .inr ⟨[], _, cs, rfl, .unopened hq⟩
    case pos =>
      have ⟨v, hv⟩ := List.head?_eq_some_iff.mp hq
      subst hv
      cases Category.decides_phrase v
      case inr h => exact .inr ⟨'"' :: v, _, [], by simp, .unclosed h⟩
      case inl h =>
        have ⟨u, t, r, he, h⟩ := h
        have h : Atom.PhraseFound (.phrase (.ofList u) (.ofList t)) (String.ofList u).toList r :=
          .intro (by simpa using h)
        exact .inl ⟨_, u, r, he, by simpa using h⟩

theorem phrase_start {literal text : String} (h : IsPhrase literal.toList text.toList)
    (tail : String) : ∃ s, phrase (.start (literal ++ tail).toList) = .ok (.phrase literal text) s ∧
      s.cursor = ⟨size literal.toList, tail.toList⟩ := by
  have ha := describes_phrase.accepts (.intro h (r := tail.toList))
  have ⟨s, hs, hr⟩ := ha (.start (literal ++ tail).toList) (by simp [State.start, Cursor.start])
  refine ⟨s, hs, Cursor.ext ?_ ?_⟩
  · simpa [State.start, Cursor.start] using hr.offset
  · simpa [State.start, Cursor.start] using hr.rest.symm

-- What is quoted is read as one phrase which ends where the quoting ended, and stands for the text
-- that was quoted. So quoting a phrase anew changes nothing any more once it was done: a phrase is
-- exactly what it was read from, and is read from this in front of everything.
theorem phrase_requoted :
    (∀ literal text tail : String,
      let quoted := Target.query.phrase literal text
      ∃ s, phrase (.start (quoted ++ tail).toList) = .ok (.phrase quoted text) s ∧
        s.cursor = ⟨size quoted.toList, tail.toList⟩) ∧
    ∀ s a s', phrase s = .ok a s' → ∃ literal text, a = .phrase literal text ∧
      Reads s.cursor literal.toList s'.cursor ∧
      (∀ tail : String, ∃ t, phrase (.start (literal ++ tail).toList) = .ok a t ∧
        t.cursor = ⟨size literal.toList, tail.toList⟩) ∧
      let quoted := (Item.free a).render .query
      ∃ b t, phrase (.start quoted.toList) = .ok b t ∧ t.cursor.rest = [] ∧
        (Item.free b).render .query = quoted := by
  have hq (literal text : String) :
      IsPhrase (Target.query.phrase literal text).toList text.toList := by
    simpa [Target.phrase] using IsPhrase.encode text.toList
  refine ⟨fun literal text tail => phrase_start (hq literal text) tail, fun s a s' h => ?_⟩
  obtain ⟨u, hf, hr⟩ := describes_phrase.of_ok h
  cases hf
  case intro literal text hp =>
    obtain ⟨t, ht, hc⟩ := phrase_start (hq literal text) ""
    rw [String.append_empty] at ht
    exact ⟨literal, text, rfl, hr, phrase_start hp, _, t, ht, by simp [hc], rfl⟩

end Parser

end SearchQuery
