import Mathlib
import SearchQuery.CommandLine.FileTree

namespace SearchQuery.FileTree

variable {t t' t'' : FileTree} {path : Path} {p q r : Place} {e : Entry} {names : List String}
variable {name : String} {content : ByteArray}

@[simp]
theorem at?_root : t.at? [] = some .directory :=
  rfl

theorem lookup_filter_ne {es : List (Place × Entry)} (h : q ≠ p) :
    (es.filter (·.1 ≠ p)).lookup q = es.lookup q := by
  induction es
  case nil => rfl
  case cons a es hi =>
    by_cases ha : a.1 = p
    case pos =>
      have hq : (q == a.1) = false := by simpa [ha] using h
      rw [List.filter_cons_of_neg (by simpa using ha), hi]
      simp only [List.lookup, hq]
    case neg =>
      rw [List.filter_cons_of_pos (by simpa using ha)]
      simp only [List.lookup, hi]

theorem at?_put_self (h : p ≠ []) : (t.put p e).at? p = some e := by
  simp [at?, put, h]

theorem at?_put_of_ne (h : q ≠ p) : (t.put p e).at? q = t.at? q := by
  have hq : (q == p) = false := by simpa using h
  simp only [at?, put, List.lookup, hq, lookup_filter_ne h]

-- Whatever exists is in a directory.
def WellFormed (t : FileTree) : Prop :=
  ∀ p, p ≠ [] → t.at? p ≠ none → t.at? p.dropLast = some .directory

theorem WellFormed.root {working : Place} : WellFormed ⟨[], working⟩ := by
  intro p hp h
  simp [at?, hp] at h

theorem WellFormed.above (hw : t.WellFormed) (h : t.at? (q ++ r) ≠ none) : t.at? q ≠ none := by
  induction r using List.reverseRecOn
  case nil => simpa using h
  case append_singleton r x hi =>
    have hd := hw _ (by simp) h
    rw [← List.append_assoc, List.dropLast_concat] at hd
    exact hi (by simp [hd])

-- A place may be filled if its directory exists, but no directory may be replaced by a file.
theorem WellFormed.put (hw : t.WellFormed) (hp : t.at? p.dropLast = some .directory)
    (he : t.at? p = some .directory → e = .directory) : (t.put p e).WellFormed := by
  intro q hn hq
  have hd : t.at? q.dropLast = some .directory := by
    by_cases h : q = p
    case pos => exact h ▸ hp
    case neg => exact hw q hn (at?_put_of_ne h ▸ hq)
  by_cases h : q.dropLast = p
  case neg => rwa [at?_put_of_ne h]
  case pos =>
    by_cases hr : p = []
    case pos => simp [h, hr]
    case neg => rw [h, at?_put_self hr, he (h ▸ hd)]

-- A name leads on only from a directory, and then it depends on nothing else.
theorem step_eq_ok (h : t.step p name = .ok q) : t.at? p = some .directory ∧
    (name = "." ∧ q = p ∨ name = ".." ∧ q = p.dropLast ∨
      name ≠ ".." ∧ q = p ++ [name]) := by
  unfold step at h
  split at h
  case h_1 => cases h
  case h_2 => cases h
  case h_3 hp =>
    refine ⟨hp, ?_⟩
    split at h
    case isTrue hn =>
      cases h
      exact .inl ⟨hn, rfl⟩
    case isFalse =>
      split at h
      case isTrue hn =>
        cases h
        exact .inr (.inl ⟨hn, rfl⟩)
      case isFalse hn =>
        split at h
        case isTrue =>
          cases h
          exact .inr (.inr ⟨hn, rfl⟩)
        case isFalse => cases h

theorem step_congr (h : t'.at? p = t.at? p) : t'.step p name = t.step p name := by
  simp only [step, h]

theorem foldlM_step_cons : (name :: names).foldlM t.step p = .ok q ↔
    ∃ r, t.step p name = .ok r ∧ names.foldlM t.step r = .ok q := by
  rw [List.foldlM_cons]
  cases t.step p name <;> simp [bind, Except.bind]

-- Where directories stay, paths go on leading to the same places.
theorem foldlM_step_mono (h : ∀ p, t.at? p = some .directory → t'.at? p = some .directory)
    (hs : names.foldlM t.step p = .ok q) : names.foldlM t'.step p = .ok q := by
  induction names generalizing p
  case nil => exact hs
  case cons name names hi =>
    have ⟨r, hp, hr⟩ := foldlM_step_cons.mp hs
    have hd := (step_eq_ok hp).1
    exact foldlM_step_cons.mpr ⟨r, step_congr ((h p hd).trans hd.symm) ▸ hp, hi hr⟩

-- A walk which never goes up ends below its start.
theorem prefix_of_foldlM_step (hn : ".." ∉ names) (hs : names.foldlM t.step p = .ok q) :
    p <+: q := by
  induction names generalizing p
  case nil =>
    cases hs
    exact List.prefix_refl _
  case cons name names hi =>
    have ⟨r, hp, hr⟩ := foldlM_step_cons.mp hs
    have hr := hi (by simp_all) hr
    obtain ⟨_, h | h | h⟩ := step_eq_ok hp
    · exact h.2 ▸ hr
    · simp [h.1] at hn
    · exact .trans (h.2 ▸ List.prefix_append _ _) hr

-- What exists in a tree is found by a path which never goes up also in one with less around it.
theorem foldlM_step_of_exists (hw : t.WellFormed) (h : ∀ p, t.at? p ≠ none → t'.at? p = t.at? p)
    (hn : ".." ∉ names) (hs : names.foldlM t'.step p = .ok q) (hq : t.at? q ≠ none) :
    names.foldlM t.step p = .ok q := by
  induction names generalizing p
  case nil => exact hs
  case cons name names hi =>
    have ⟨u, hu⟩ := prefix_of_foldlM_step hn hs
    have ⟨r, hp, hr⟩ := foldlM_step_cons.mp hs
    have hp' : t.at? p ≠ none := hw.above (hu ▸ hq)
    exact foldlM_step_cons.mpr ⟨r, step_congr (h p hp') ▸ hp, hi (by simp_all) hr⟩

-- Where more places exist, a path can lead on only if it ended at one which did not exist.
theorem eq_notFound_of_foldlM_step {e : FileError}
    (h : ∀ p, t.at? p ≠ none → t'.at? p = t.at? p) (he : names.foldlM t.step p = .error e)
    (hs : names.foldlM t'.step p = .ok q) : e = .notFound := by
  induction names generalizing p
  case nil => cases he
  case cons name names hi =>
    have ⟨r, hp, hr⟩ := foldlM_step_cons.mp hs
    by_cases hn : t.at? p = none
    case pos =>
      simp only [List.foldlM_cons, step, hn] at he
      cases he
      rfl
    case neg =>
      rw [List.foldlM_cons, ← step_congr (h p hn), hp] at he
      exact hi he hr

theorem WellFormed.foldlM_step (hw : t.WellFormed) (hn : names ≠ [])
    (hs : names.foldlM t.step p = .ok q) : t.at? q ≠ none ∨ t.at? q.dropLast = some .directory := by
  induction names generalizing p
  case nil => contradiction
  case cons name names hi =>
    have ⟨r, hp, hr⟩ := foldlM_step_cons.mp hs
    by_cases h : names = []
    case neg => exact hi h hr
    case pos =>
      subst h
      cases hr
      obtain ⟨hd, h | h | h⟩ := step_eq_ok hp
      · exact .inl (by simp [h.2, hd])
      · by_cases n : p = []
        case pos => exact .inl (by simp [h.2, n])
        case neg => exact .inl (by simp [h.2, hw p n (by simp [hd])])
      · exact .inr (by simpa [h.2] using hd)

-- Where a path starts.
def start (t : FileTree) (path : Path) : Place :=
  if path.isAbsolute then [] else t.working

theorem locate_eq_ok_iff : t.locate path = .ok q ↔
    path ≠ ∅ ∧ path.text.utf8ByteSize < pathLimit ∧
      path.names.foldlM t.step (t.start path) = .ok q := by
  unfold locate walk start
  by_cases hn : path = ∅
  case pos => simp [hn]
  case neg =>
    by_cases hs : path.text.utf8ByteSize < pathLimit
    case pos => simp [hn, hs]
    case neg => simp [hn, hs]

theorem eq_notFound_of_locate {e : FileError} (hw : t'.working = t.working)
    (h : ∀ p, t.at? p ≠ none → t'.at? p = t.at? p) (he : t.locate path = .error e)
    (hl : t'.locate path = .ok q) : e = .notFound := by
  have ⟨hn, hs, hl⟩ := locate_eq_ok_iff.mp hl
  have hst : t'.start path = t.start path := by simp only [start, hw]
  refine eq_notFound_of_foldlM_step h ?_ (hst ▸ hl)
  simpa [locate, walk, hn, hs, start] using he

theorem locate_mono (hw : t'.working = t.working)
    (h : ∀ p, t.at? p = some .directory → t'.at? p = some .directory) (hl : t.locate path = .ok q) :
    t'.locate path = .ok q := by
  have ⟨hn, hs, hl⟩ := locate_eq_ok_iff.mp hl
  have hst : t'.start path = t.start path := by simp only [start, hw]
  exact locate_eq_ok_iff.mpr ⟨hn, hs, hst ▸ foldlM_step_mono h hl⟩

theorem isAbsolute_of_names (n : path.names = []) (hn : path ≠ ∅) : path.isAbsolute := by
  have hh : path.head = "" := by simp_all [Path.names]
  by_contra ha
  refine hn ?_
  have hp : path.parts = [] := by simpa [Path.isAbsolute, hh] using ha
  cases path
  cases hh
  cases hp
  rfl

-- A place which a path leads to exists, or else its directory does.
theorem WellFormed.locate (hw : t.WellFormed) (h : t.locate path = .ok q) :
    t.at? q ≠ none ∨ t.at? q.dropLast = some .directory := by
  have ⟨hn, _, hs⟩ := locate_eq_ok_iff.mp h
  by_cases n : path.names = []
  case neg => exact hw.foldlM_step n hs
  case pos =>
    rw [n, start, if_pos (isAbsolute_of_names n hn)] at hs
    cases hs
    exact .inl (by simp)

theorem locateFile_eq_ok_iff : t.locateFile path = .ok q ↔
    path.endsWithSlash = false ∧ t.locate path = .ok q := by
  cases he : path.endsWithSlash
  case false => simp [locateFile, he]
  case true =>
    simp only [locateFile, he, if_pos, bind, Except.bind, Bool.true_eq_false, false_and, iff_false]
    split
    case h_1 => nofun
    case h_2 => split <;> nofun

theorem find_eq_file_iff : t.find path = .ok (.file content) ↔
    path.endsWithSlash = false ∧ ∃ p, t.locate path = .ok p ∧ t.at? p = some (.file content) := by
  constructor
  case mp =>
    intro h
    unfold find at h
    cases hl : t.locate path
    case error => simp [hl, bind, Except.bind] at h
    case ok p =>
      simp only [hl, bind, Except.bind] at h
      split at h
      case h_1 => cases h
      case h_2 => cases h
      case h_3 c hp =>
        split at h
        case isTrue => cases h
        case isFalse he =>
          cases h
          exact ⟨by simpa using he, p, rfl, hp⟩
  case mpr =>
    intro ⟨he, p, hl, hp⟩
    simp [find, hl, hp, he, bind, Except.bind]

theorem contains_of_find (h : t.find path = .ok e) : t.contains path := by
  simp [contains, h, Except.isOk, Except.toBool]

theorem read_of_find (h : t.find path = .ok (.file content)) : t.read path = .ok content := by
  simp [read, h, bind, Except.bind]

theorem ne_nil_of_not_directory (h : t.at? p ≠ some .directory) : p ≠ [] := by
  intro he
  simp [he] at h

theorem directory_put (h : t.at? p ≠ some .directory) (hq : t.at? q = some .directory) :
    (t.put p (.file content)).at? q = some .directory := by
  rwa [at?_put_of_ne]
  intro he
  exact h (he ▸ hq)

theorem locate_put (h : t.at? p ≠ some .directory) (hl : t.locate path = .ok q) :
    (t.put p (.file content)).locate path = .ok q :=
  locate_mono (t := t) rfl (fun _ => directory_put h) hl

-- From `t` to `t'` nothing but directories were added, and only where a beginning of the path
-- leads.
structure Grows (path : Path) (t t' : FileTree) : Prop where
  working    : t'.working = t.working
  kept       : ∀ p, t.at? p ≠ none → t'.at? p = t.at? p
  added      : ∀ p, t.at? p = none → t'.at? p ≠ none → t'.at? p = some .directory ∧
    ∃ parts, parts <+: path.parts ∧ t'.locate { path with parts } = .ok p
  wellFormed : t.WellFormed → t'.WellFormed

namespace Grows

theorem refl : Grows path t t where
  working    := rfl
  kept _ _   := rfl
  added _ h n := absurd h n
  wellFormed := id

theorem directory (h : Grows path t t') (hp : t.at? p = some .directory) :
    t'.at? p = some .directory :=
  (h.kept p (by simp [hp])).trans hp

theorem trans (h₁ : Grows path t t') (h₂ : Grows path t' t'') : Grows path t t'' where
  working    := h₂.working.trans h₁.working
  kept p h   := by
    have hp := h₁.kept p h
    exact (h₂.kept p (hp ▸ h)).trans hp
  added p h n := by
    by_cases hp : t'.at? p = none
    case pos => exact h₂.added p hp n
    case neg =>
      have ⟨hd, parts, hl, hp⟩ := h₁.added p h hp
      exact ⟨h₂.directory hd, parts, hl, locate_mono h₂.working (fun _ => h₂.directory) hp⟩
  wellFormed := h₂.wellFormed ∘ h₁.wellFormed

theorem put {parts : List String} (hp : parts <+: path.parts)
    (hl : t.locate { path with parts } = .ok p) (hn : t.at? p = none) :
    Grows path t (t.put p .directory) where
  working    := rfl
  kept q h   := at?_put_of_ne fun he => h (he ▸ hn)
  added q h n := by
    have hr : p ≠ [] := fun he => by simp [he] at hn
    have hq : q = p := by
      by_contra hq
      exact n ((at?_put_of_ne hq).trans h)
    subst hq
    have hl : (t.put q .directory).locate { path with parts } = .ok q := by
      refine locate_mono (t := t) rfl (fun r hd => ?_) hl
      rwa [at?_put_of_ne]
      intro he
      simp [he, hn] at hd
    exact ⟨at?_put_self hr, parts, hp, hl⟩
  wellFormed hw := hw.put ((hw.locate hl).resolve_left (by simp [hn])) fun _ => rfl

end Grows

namespace Action

variable {α β : Type} {x : Action α} {f : α → Action β}

@[simp]
theorem bind_apply : (x >>= f) t = match x t with
    | .ok a t'    => f a t'
    | .error e t' => .error e t' := by
  simp only [Bind.bind, EStateM.bind]
  split <;> simp_all

@[simp]
theorem pure_apply {a : α} : (pure a : Action α) t = .ok a t :=
  rfl

@[simp]
theorem get_apply : (get : Action FileTree) t = .ok t t :=
  rfl

@[simp]
theorem throw_apply {e : FileError} : (throw e : Action α) t = .error e t :=
  rfl

theorem createDirectory_cases (path : Path) (t : FileTree) :
    (∃ e, createDirectory path t = .error e t) ∨
    ∃ p, t.locate path = .ok p ∧ t.at? p = none ∧
      createDirectory path t = .ok () (t.put p .directory) := by
  cases hl : t.locate path
  case error e => exact .inl ⟨e, by simp [createDirectory, hl, ofExcept]⟩
  case ok p =>
    cases ha : t.at? p
    case some => exact .inl ⟨.alreadyExists, by simp [createDirectory, hl, ofExcept, ha]⟩
    case none =>
      refine .inr ⟨p, rfl, ha, ?_⟩
      simp [createDirectory, hl, ofExcept, ha]
      rfl

@[simp]
theorem tryCatch_apply {h : FileError → Action α} : (tryCatch x h) t = match x t with
    | .ok a t'    => .ok a t'
    | .error e t' => h e t' := by
  simp only [tryCatch, tryCatchThe, MonadExceptOf.tryCatch, EStateM.tryCatch]
  cases x t <;> rfl

-- Whether the action succeeds or not, it only adds directories on the path.
def Grow (path : Path) (x : Action α) : Prop :=
  ∀ t, ∃ t', Grows path t t' ∧ ((∃ a, x t = .ok a t') ∨ ∃ e, x t = .error e t')

namespace Grow

theorem pure {a : α} : Grow path (Pure.pure a) :=
  fun t => ⟨t, .refl, .inl ⟨a, rfl⟩⟩

theorem throw {e : FileError} : Grow path (throw e : Action α) :=
  fun t => ⟨t, .refl, .inr ⟨e, rfl⟩⟩

theorem get : Grow path (get : Action FileTree) :=
  fun t => ⟨t, .refl, .inl ⟨t, rfl⟩⟩

theorem bind (hx : Grow path x) (hf : ∀ a, Grow path (f a)) : Grow path (x >>= f) := by
  intro t
  have ⟨t₁, h₁, hx⟩ := hx t
  cases hx
  case inl hx =>
    have ⟨a, hx⟩ := hx
    have ⟨t₂, h₂, hf⟩ := hf a t₁
    exact ⟨t₂, h₁.trans h₂, by simpa [hx] using hf⟩
  case inr hx =>
    have ⟨e, hx⟩ := hx
    exact ⟨t₁, h₁, .inr ⟨e, by simp [hx]⟩⟩

theorem tryCatch {h : FileError → Action α} (hx : Grow path x) (hh : ∀ e, Grow path (h e)) :
    Grow path (tryCatch x h) := by
  intro t
  have ⟨t₁, h₁, hx⟩ := hx t
  cases hx
  case inl hx =>
    have ⟨a, hx⟩ := hx
    exact ⟨t₁, h₁, .inl ⟨a, by simp [hx]⟩⟩
  case inr hx =>
    have ⟨e, hx⟩ := hx
    have ⟨t₂, h₂, hh⟩ := hh e t₁
    exact ⟨t₂, h₁.trans h₂, by simpa [hx] using hh⟩

end Grow

theorem grow_createDirectory {parts : List String} (hp : parts <+: path.parts) :
    Grow path (createDirectory { path with parts }) := by
  intro t
  cases createDirectory_cases { path with parts } t
  case inl h => exact ⟨t, .refl, .inr h⟩
  case inr h =>
    have ⟨p, hl, ha, h⟩ := h
    exact ⟨_, .put hp hl ha, .inl ⟨(), h⟩⟩

theorem grow_ensureDirectory {parts : List String} (hp : parts <+: path.parts) :
    Grow path (ensureDirectory { path with parts }) := by
  refine .tryCatch (grow_createDirectory hp) fun e => .bind .get fun t => ?_
  split
  case isTrue => exact .pure
  case isFalse => exact .throw

-- The parts which are left to look at are in reverse, so the rest of them is a beginning of the
-- path.
theorem grow_createDirectories (path : Path) : Grow path (createDirectories path) := by
  suffices h : ∀ parts : List String, parts.reverse <+: path.parts →
      Grow path (createDirectories.go path parts) from h _ (by simp)
  intro parts hp
  induction parts
  case nil =>
    unfold createDirectories.go
    split
    case isTrue => exact .pure
    case isFalse => exact grow_ensureDirectory (List.nil_prefix)
  case cons part above hi =>
    have hi := hi (.trans (by simp) hp)
    unfold createDirectories.go
    split
    case isTrue => exact hi
    case isFalse =>
      refine .tryCatch (grow_ensureDirectory hp) fun e => ?_
      split
      · exact .bind hi fun _ => grow_ensureDirectory hp
      · exact .throw

theorem write_cases (path : Path) (content : ByteArray) (t : FileTree) :
    (∃ e, write path content t = .error e t) ∨
    ∃ p, t.locateFile path = .ok p ∧ t.at? p ≠ some .directory ∧
      write path content t = .ok () (t.put p (.file content)) := by
  cases hl : t.locateFile path
  case error e => exact .inl ⟨e, by simp [write, hl, ofExcept]⟩
  case ok p =>
    by_cases ha : t.at? p = some .directory
    case pos => exact .inl ⟨.isDirectory, by simp [write, hl, ofExcept, ha]⟩
    case neg =>
      refine .inr ⟨p, rfl, ha, ?_⟩
      simp [write, hl, ofExcept]
      rfl

end Action

end SearchQuery.FileTree
