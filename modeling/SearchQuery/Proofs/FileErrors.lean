import SearchQuery.Proofs.Files

namespace SearchQuery

-- The errors which a tree of files has by itself.
def FileError.IsKnown : FileError → Prop
  | other _ => False
  | _       => True

namespace FileTree

variable {t : FileTree} {path : Path} {p : Place} {name : String}

def FailsKnown (x : Except FileError α) : Prop :=
  ∀ e, x = .error e → e.IsKnown

namespace FailsKnown

theorem ok {a : α} : FailsKnown (.ok a : Except FileError α) :=
  nofun

theorem error {e : FileError} (h : e.IsKnown) : FailsKnown (.error e : Except FileError α) := by
  rintro _ ⟨⟩
  exact h

theorem bind {x : Except FileError α} {f : α → Except FileError β} (hx : FailsKnown x)
    (hf : ∀ a, FailsKnown (f a)) : FailsKnown (x >>= f) := by
  cases x
  case error e => exact fun e he => hx e (by cases he; rfl)
  case ok a => exact hf a

end FailsKnown

theorem failsKnown_step : FailsKnown (t.step p name) := by
  unfold step
  split
  · exact .error trivial
  · exact .error trivial
  · split_ifs
    · exact .ok
    · exact .ok
    · exact .ok
    · exact .error trivial

theorem failsKnown_foldlM {names : List String} : FailsKnown (names.foldlM t.step p) := by
  induction names generalizing p
  case nil => exact .ok
  case cons name names hi =>
    rw [List.foldlM_cons]
    exact .bind failsKnown_step fun _ => hi

theorem failsKnown_walk {names : List String} : FailsKnown (t.walk path names) := by
  unfold walk
  split
  case isTrue => exact .error trivial
  case isFalse =>
    split
    case isTrue => exact failsKnown_foldlM
    case isFalse => exact .error trivial

theorem failsKnown_locateFile : FailsKnown (t.locateFile path) := by
  unfold locateFile
  split
  case isTrue =>
    exact .bind failsKnown_walk fun _ => .bind failsKnown_step fun _ => .error trivial
  case isFalse => exact failsKnown_walk

namespace Action

variable {α β : Type} {x : Action α} {f : α → Action β}

def FailsKnown (x : Action α) : Prop :=
  ∀ t e t', x t = .error e t' → e.IsKnown

namespace FailsKnown

theorem pure {a : α} : FailsKnown (Pure.pure a : Action α) :=
  nofun

theorem throw {e : FileError} (h : e.IsKnown) : FailsKnown (throw e : Action α) := by
  rintro _ _ _ ⟨⟩
  exact h

theorem get : FailsKnown (get : Action FileTree) :=
  nofun

theorem modify {g : FileTree → FileTree} : FailsKnown (modify g : Action Unit) :=
  nofun

theorem ofExcept {y : Except FileError α} (h : FileTree.FailsKnown y) :
    FailsKnown (ofExcept y : Action α) := by
  cases y
  case ok => exact .pure
  case error e => exact .throw (h e rfl)

theorem bind (hx : FailsKnown x) (hf : ∀ a, FailsKnown (f a)) : FailsKnown (x >>= f) := by
  intro t e t' h
  rw [bind_apply] at h
  cases hr : x t <;> rw [hr] at h
  case ok => exact hf _ _ _ _ h
  case error =>
    cases h
    exact hx _ _ _ hr

theorem tryCatch {g : FileError → Action α} (hg : ∀ e, e.IsKnown → FailsKnown (g e))
    (hx : FailsKnown x) : FailsKnown (tryCatch x g) := by
  intro t e t' h
  rw [tryCatch_apply] at h
  cases hr : x t <;> rw [hr] at h
  case ok => cases h
  case error => exact hg _ (hx _ _ _ hr) _ _ _ h

end FailsKnown

theorem failsKnown_write (content : ByteArray) : FailsKnown (write path content) := by
  refine .bind .get fun t => .bind (.ofExcept failsKnown_locateFile) fun p => .bind .get fun t => ?_
  split
  · exact .throw trivial
  · exact .modify

theorem failsKnown_ensureDirectory : FailsKnown (ensureDirectory path) := by
  refine .tryCatch (fun e he => .bind .get fun t => ?_) ?_
  · split
    · exact .pure
    · exact .throw he
  · refine .bind .get fun t => .bind (.ofExcept failsKnown_walk) fun p => .bind .get fun t => ?_
    split
    · exact .throw trivial
    · exact .modify

theorem failsKnown_createDirectories : FailsKnown (createDirectories path) := by
  suffices h : ∀ parts, FailsKnown (createDirectories.go path parts) from h _
  intro parts
  induction parts
  case nil =>
    unfold createDirectories.go
    split
    · exact .pure
    · exact failsKnown_ensureDirectory
  case cons part above hi =>
    unfold createDirectories.go
    split
    · exact hi
    · refine .tryCatch (fun e he => ?_) failsKnown_ensureDirectory
      split
      · exact .bind hi fun _ => failsKnown_ensureDirectory
      · exact .throw he

end Action

end FileTree

end SearchQuery
