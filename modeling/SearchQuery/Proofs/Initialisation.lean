import SearchQuery.Proofs.Agreement
import SearchQuery.Proofs.Files

namespace SearchQuery

open CommandM Run FileTree

namespace FileTree

-- What the initialisation of the configuration at `path` makes of a tree, and if it is completed.
inductive Initialised (force : Bool) (path : Path) (t : FileTree) : Bool → FileTree → Prop
  | refused :
    t.contains path → force = false → Initialised force path t false t
  | incomplete :
    (force = false → t.contains path = false) → Grows path.above t t' →
    Initialised force path t false t'
  | complete :
    (force = false → t.contains path = false) → Grows path.above t t' →
    t'.locateFile path = .ok p → t'.at? p ≠ some .directory →
    Initialised force path t true (t'.put p (.file Config.template.toUTF8))

variable {t t' : FileTree} {path path' : Path} {p q : Place} {content : ByteArray}
variable {force done : Bool}

namespace Initialised

theorem wellFormed (h : Initialised force path t done t') (hw : t.WellFormed) : t'.WellFormed := by
  cases h
  case refused => exact hw
  case incomplete hg => exact hg.wellFormed hw
  case complete t' p _ hg hl hp =>
    have hw := hg.wellFormed hw
    refine hw.put ?_ fun h => absurd h hp
    cases hw.locate (locateFile_eq_ok_iff.mp hl).2
    case inl hn => exact hw p (ne_nil_of_not_directory hp) hn
    case inr hd => exact hd

-- A file is changed only where the path leads, and directories are added only above that place.
theorem changes (h : Initialised force path t done t') (hq : t'.at? q ≠ t.at? q) :
    t'.locateFile path = .ok q ∧ t'.at? q = some (.file Config.template.toUTF8) ∨
    t.at? q = none ∧ t'.at? q = some .directory ∧
      ∃ parts, parts <+: path.above.parts ∧ t'.locate { path.above with parts } = .ok q := by
  cases h
  case refused => exact absurd rfl hq
  case incomplete hg =>
    have hn : t.at? q = none := by
      by_contra hn
      exact hq (hg.kept q hn)
    exact .inr ⟨hn, hg.added q hn (hn ▸ hq)⟩
  case complete t' p _ hg hl hp =>
    have ⟨hs, hl⟩ := locateFile_eq_ok_iff.mp hl
    by_cases he : q = p
    case pos =>
      subst he
      refine .inl ⟨locateFile_eq_ok_iff.mpr ⟨hs, locate_put hp hl⟩, ?_⟩
      exact at?_put_self (ne_nil_of_not_directory hp)
    case neg =>
      rw [at?_put_of_ne he] at hq ⊢
      have hn : t.at? q = none := by
        by_contra hn
        exact hq (hg.kept q hn)
      have ⟨hd, parts, hpp, hq⟩ := hg.added q hn (hn ▸ hq)
      exact .inr ⟨hn, hd, parts, hpp, locate_put hp hq⟩

theorem eq_of_contains (h : Initialised false path t done t') (hc : t.contains path) :
    done = false ∧ t' = t := by
  cases h
  case refused => exact ⟨rfl, rfl⟩
  case incomplete hn _ => simp [hc] at hn
  case complete hn _ _ _ => simp [hc] at hn

-- Unless it is forced, what exists is overwritten only in one way: the path led nowhere, as a
-- directory on it was missing from which it goes up again.
theorem overwrites (h : Initialised false path t done t') (hw : t.WellFormed)
    (hq : t.at? q ≠ none) (ho : t'.at? q ≠ t.at? q) :
    ".." ∈ path.names ∧ t.locate path = .error .notFound := by
  cases h
  case refused => exact absurd rfl ho
  case incomplete hg => exact absurd (hg.kept q hq) ho
  case complete t' p hc hg hl hp =>
    have ⟨hs, hl⟩ := locateFile_eq_ok_iff.mp hl
    have he : q = p := by
      by_contra he
      exact ho ((at?_put_of_ne he).trans (hg.kept q hq))
    subst he
    -- Otherwise the path would have led to the file before, so it would not have been written.
    have hn : t.locate path ≠ .ok q := by
      intro hl
      have hk := hg.kept q hq
      cases ha : t.at? q
      case none => exact hq ha
      case some e =>
        cases e
        case directory => exact hp (hk.trans ha)
        case file c =>
          have hf := contains_of_find (find_eq_file_iff.mpr ⟨hs, q, hl, ha⟩)
          simp [hc rfl] at hf
    constructor
    case left =>
      by_contra hu
      have ⟨hne, hb, hf⟩ := locate_eq_ok_iff.mp hl
      have hst : t'.start path = t.start path := by simp only [start, hg.working]
      have hf := foldlM_step_of_exists hw hg.kept hu (hst ▸ hf) hq
      exact hn (locate_eq_ok_iff.mpr ⟨hne, hb, hf⟩)
    case right =>
      cases ha : t.locate path
      case error e => rw [eq_notFound_of_locate hg.working hg.kept ha hl]
      case ok r =>
        have hr := locate_mono hg.working (fun _ => hg.directory) ha
        cases hl.symm.trans hr
        exact absurd ha hn

theorem file_iff (h : Initialised force path t false t') :
    t'.at? q = some (.file content) ↔ t.at? q = some (.file content) := by
  cases h
  case refused => rfl
  case incomplete hg =>
    by_cases hq : t.at? q = none
    case neg => rw [hg.kept q hq]
    case pos =>
      rw [hq]
      refine iff_of_false (fun hf => ?_) nofun
      have ⟨hd, _⟩ := hg.added q hq (by simp [hf])
      simp [hf] at hd

theorem find (h : Initialised force path t true t') :
    t'.find path = .ok (.file Config.template.toUTF8) := by
  cases h
  case complete t' p _ _ hl hp =>
    have ⟨hs, hl⟩ := locateFile_eq_ok_iff.mp hl
    exact find_eq_file_iff.mpr ⟨hs, p, locate_put hp hl, at?_put_self (ne_nil_of_not_directory hp)⟩

-- Once the configuration is there, another initialisation leaves it as it is.
theorem find_of_find (h : Initialised force path' t done t')
    (hf : t.find path = .ok (.file Config.template.toUTF8)) :
    t'.find path = .ok (.file Config.template.toUTF8) := by
  have ⟨hs, q, hl, hq⟩ := find_eq_file_iff.mp hf
  have grows {t' : FileTree} (hg : Grows path'.above t t') :
      t'.locate path = .ok q ∧ t'.at? q = some (.file Config.template.toUTF8) :=
    ⟨locate_mono hg.working (fun _ => hg.directory) hl, (hg.kept q (by simp [hq])).trans hq⟩
  cases h
  case refused => exact hf
  case incomplete hg =>
    have ⟨hl, hq⟩ := grows hg
    exact find_eq_file_iff.mpr ⟨hs, q, hl, hq⟩
  case complete t' p _ hg _ hp =>
    have ⟨hl, hq⟩ := grows hg
    refine find_eq_file_iff.mpr ⟨hs, q, locate_put hp hl, ?_⟩
    by_cases he : q = p
    case pos =>
      rw [he]
      exact at?_put_self (ne_nil_of_not_directory hp)
    case neg => rwa [at?_put_of_ne he]

end Initialised

end FileTree

variable {env : Environment} {flags : Flags} {m : Machine}

namespace Run

theorem run_act_ok {α : Type} {a : α} {t : FileTree} {action : Action α}
    (h : action m.files = .ok a t) :
    (Machine.act action).run m = (.ok a, { m with files := t }) := by
  simp [Machine.act, h]
  rfl

theorem run_act_error {α : Type} {e : FileError} {t : FileTree} {action : Action α}
    (h : action m.files = .error e t) :
    (Machine.act action).run m = (.error e, { m with files := t }) := by
  simp [Machine.act, h]
  rfl

-- Directories which were added stay, even if the initialisation fails afterwards.
theorem does_runInit (quiet force : Bool) {path : String} (h : env.configPath? = some path)
    (m : Machine) :
    (∃ e t, Does (runInit quiet env force) m (.error (.config e)) "" { m with files := t } ∧
      Initialised force (.ofString path) m.files false t) ∨
    ∃ t text, Does (runInit quiet env force) m (.ok ()) text { m with files := t } ∧
      Initialised force (.ofString path) m.files true t := by
  by_cases hc : m.files.contains (.ofString path) && !force
  case pos =>
    refine .inl ⟨.alreadyExists path, m.files, ?_, ?_⟩
    · refine does_found h ?_
      rw [if_pos hc]
      exact .throw
    · simp only [Bool.and_eq_true, Bool.not_eq_true'] at hc
      exact .refused hc.1 hc.2
  case neg =>
    have hn : force = false → m.files.contains (.ofString path) = false := by
      intro hf
      simpa [hf] using hc
    have ⟨t₁, hg, hx⟩ := Action.grow_createDirectories (Path.ofString path).above m.files
    cases hx
    case inr hx =>
      have ⟨e, hx⟩ := hx
      refine .inl ⟨.directoryNotCreated e, t₁, ?_, .incomplete hn hg⟩
      refine does_found h ?_
      rw [if_neg hc]
      exact .bind_error <| .attempt_error <| run_act_error hx
    case inl hx =>
      have ⟨_, hx⟩ := hx
      cases Action.write_cases (.ofString path) Config.template.toUTF8 t₁
      case inl hy =>
        have ⟨e, hy⟩ := hy
        refine .inl ⟨.notWritten e, t₁, ?_, .incomplete hn hg⟩
        refine does_found h ?_
        rw [if_neg hc]
        exact .quiet_bind (.attempt_ok <| run_act_ok hx) <| .bind_error <| .attempt_error <|
          run_act_error (m := { m with files := t₁ }) hy
      case inr hy =>
        have ⟨p, hl, hp, hy⟩ := hy
        have hq : ∃ text, Does (unless quiet do print ("Created default config at: " ++ path))
            { m with files := t₁.put p (.file Config.template.toUTF8) } (.ok ()) text
            { m with files := t₁.put p (.file Config.template.toUTF8) } := by
          split
          case isTrue => exact ⟨_, .pure⟩
          case isFalse => exact ⟨_, .print _⟩
        have ⟨text, hq⟩ := hq
        refine .inr ⟨_, text, ?_, .complete hn hg hl hp⟩
        refine does_found h ?_
        rw [if_neg hc]
        exact .quiet_bind (.attempt_ok <| run_act_ok hx) <|
          .quiet_bind (.attempt_ok <| run_act_ok (m := { m with files := t₁ }) hy) hq

end Run

end SearchQuery
