import SearchQuery.Proofs.Collapse
import SearchQuery.Proofs.Inertness

namespace SearchQuery

open Text

-- What is documented of the library, as long as the environment does not name a style for the log.
structure Library.Documented [Library] : Prop where
  noColor    : ∀ {env v}, env.logStyle = none → env.noColor = some v → v ≠ "" →
    Library.colorsLog env = false
  redirected : ∀ {env}, env.logStyle = none → env.colorForced = none → env.onTerminal = false →
    Library.colorsLog env = false
  -- Without colours nothing but a record, or a filter which is complained about, can have escape
  -- characters in it.
  plain      : ∀ {settings env rs}, Library.colorsLog env = false →
    (∀ f ∈ env.logFilter, IsInert f) → (∀ r ∈ rs, r.IsInert) → IsInert (Library.log settings env rs)

namespace Log

variable {c : Char} {cs ds : List Char}

namespace Directive

theorem mem_of_read_error (h : read cs = .error ds) (hc : c ∈ ds) : c ∈ cs := by
  unfold read at h
  split at h
  case h_1 => cases h
  case h_2 target value hs =>
    have hv : value ∈ cs.splitOn '=' := by simp [hs]
    split at h
    case h_1 => cases h
    case h_2 value' _ =>
      cases hn : Filter.ofName? (trim value)
      all_goals
        rw [hn] at h
        cases h
      exact (mem_of_mem_splitOn hv (mem_of_mem_trim hc)).1
  case h_3 =>
    cases h
    exact hc

theorem mem_of_mem_readAll {f : String} (h : .error ds ∈ readAll f) (hc : c ∈ ds) :
    c ∈ f.toList := by
  simp only [readAll, List.mem_map, List.mem_filter] at h
  obtain ⟨_, ⟨⟨w, hw, rfl⟩, _⟩, hr⟩ := h
  have ⟨hm, _⟩ := mem_of_mem_splitOn hw (mem_of_mem_trim (mem_of_read_error hr hc))
  exact (List.takeWhile_prefix (· ≠ '/')).subset hm

theorem isInert_warning (h : '\x1b' ∉ cs) : IsInert (warning cs) := by
  unfold warning
  simp only [isInert_append, isInert_ofList]
  exact ⟨⟨isInert_literal (by decide), h⟩, isInert_literal (by decide)⟩

end Directive

-- Only what stands in the filter of the environment can be in error.
theorem Settings.not_mem_of_error {settings : Settings} {filter : Option String}
    (h : ∀ f ∈ filter, IsInert f) (he : .error cs ∈ settings.directives filter) : '\x1b' ∉ cs := by
  cases List.mem_append.mp he
  case inl he =>
    cases filter
    case none => simp at he
    case some => exact fun hm => h _ rfl (Directive.mem_of_mem_readAll he hm)
  case inr he =>
    simp at he

theorem Record.IsInert.line {r : Record} (h : r.IsInert) : Text.IsInert (r.line false) := by
  have hl : Text.IsInert r.level.label := by cases r.level <;> exact isInert_literal (by decide)
  have ht : '\x1b' ∉ r.text.toList.flatMap Record.line.indent := by
    intro hm
    obtain ⟨c, hc, hm⟩ := List.mem_flatMap.mp hm
    unfold Record.line.indent at hm
    split at hm
    case isTrue => exact absurd hm (by decide)
    case isFalse => exact h.text (List.mem_singleton.mp hm ▸ hc)
  simp only [Record.line, painted_false, isInert_append, isInert_ofList]
  exact ⟨⟨⟨⟨⟨⟨⟨isInert_literal (by decide), hl⟩, isInert_literal (by decide)⟩, h.target⟩,
    isInert_literal (by decide)⟩, isInert_literal (by decide)⟩, ht⟩, isInert_literal (by decide)⟩

end Log

namespace Library

-- The library which stands in does what is documented.
theorem documented : Documented where
  noColor {env v} hs hv hn := by
    simp [colorsLog, Environment.colorsLog, hs, hv, hn]
  redirected {env} hs hf ht := by
    simp [colorsLog, Environment.colorsLog, hs, hf, ht]
  plain {settings env rs} hc hf hr := by
    refine isInert_append.mpr ⟨isInert_join ?_, isInert_join ?_⟩
    · simp only [List.forall_mem_map, List.mem_filterMap]
      rintro cs ⟨d, hd, he⟩
      cases d
      case ok => cases he
      case error =>
        cases he
        exact Log.Directive.isInert_warning (settings.not_mem_of_error hf hd)
    · simp only [List.forall_mem_map, List.mem_filter]
      rintro r ⟨hm, _⟩
      have hc : env.colorsLog = false := hc
      exact hc ▸ (hr r hm).line

end Library

end SearchQuery
