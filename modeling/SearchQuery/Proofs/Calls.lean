import SearchQuery.Proofs.Initialisation

namespace SearchQuery

open CommandM Run FileTree

-- A run of the command line, as it is called.
structure Call where
  env   : Environment
  args  : List String
  input : ByteArray

namespace Call

def report [Library] (k : Call) (t : FileTree) : Report :=
  ((run k.env k.args : StateM Machine Report).run { files := t, input := k.input }).1

-- The files after the run.
def effect [Library] (k : Call) (t : FileTree) : FileTree :=
  ((run k.env k.args : StateM Machine Report).run { files := t, input := k.input }).2.files

-- The call initialises the configuration.
def Inits (k : Call) (force : Bool) : Prop :=
  ∃ flags, Invocation.ofArguments k.args = .run flags (.initConfig force)

end Call

-- The files after one run for each of the calls.
def FileTree.after [Library] (t : FileTree) (ks : List Call) : FileTree :=
  ks.foldl (fun t k => k.effect t) t

@[simp]
theorem FileTree.after_nil [Library] (t : FileTree) : t.after [] = t :=
  rfl

@[simp]
theorem FileTree.after_cons [Library] (t : FileTree) (k : Call) (ks : List Call) :
    t.after (k :: ks) = (k.effect t).after ks :=
  rfl

-- The reports are the same but for what was logged before the error.
structure Report.Agrees [Library] (flags : Flags) (env : Environment) (report report' : Report) :
    Prop where
  code   : report.code = report'.code
  stdout : report.stdout = report'.stdout
  error  : report.code ≠ 0 → ∃ e rs rs',
    report.stderr = Library.log (logSettings flags) env rs ++ errorLine flags env e ∧
    report'.stderr = Library.log (logSettings flags) env rs' ++ errorLine flags env e

-- What a run does to the files, and what this means for later ones.
structure Call.Safe [Library] (k : Call) (t : FileTree) : Prop where
  -- Nothing but the initialisation of the configuration changes anything.
  reads      : (∀ force, ¬k.Inits force) → k.effect t = t
  -- It writes where its path leads, and creates directories above that place.
  changes    : ∀ q, (k.effect t).at? q ≠ t.at? q → ∃ path, k.env.configPath? = some path ∧
    ((k.effect t).locateFile (.ofString path) = .ok q ∧
        (k.effect t).at? q = some (.file Config.template.toUTF8) ∨
      t.at? q = none ∧ (k.effect t).at? q = some .directory ∧
        ∃ parts, parts <+: (Path.ofString path).above.parts ∧
          (k.effect t).locate { (Path.ofString path).above with parts } = .ok q)
  -- Unless it is forced, it leaves alone what its path leads to. But a path which goes up from a
  -- missing directory leads nowhere until this is created.
  refuses    : ∀ path, k.Inits false → k.env.configPath? = some path →
    t.contains (.ofString path) → (k.report t).code = 5 ∧ k.effect t = t
  overwrites : ∀ path q, k.Inits false → k.env.configPath? = some path →
    t.at? q ≠ none → (k.effect t).at? q ≠ t.at? q →
    ".." ∈ (Path.ofString path).names ∧ t.locate (.ofString path) = .error .notFound
  -- If it fails, all files hold what they held before.
  fails      : ∀ force q content, k.Inits force → (k.report t).code ≠ 0 →
    ((k.effect t).at? q = some (.file content) ↔ t.at? q = some (.file content))
  -- If it succeeds, further runs leave its file as it is, and with that file queries are compiled as
  -- they are without any.
  lasts      : ∀ force, k.Inits force → (k.report t).code = 0 →
    ∃ path, k.env.configPath? = some path ∧ ∀ ks,
      ((k.effect t).after ks).find (.ofString path) = .ok (.file Config.template.toUTF8)
  restores   : ∀ force path (t' : FileTree), k.Inits force → (k.report t).code = 0 →
    k.env.configPath? = some path → t'.find (.ofString path) = (k.effect t).find (.ofString path) →
    ∀ (l : Call) (t₀ : FileTree) flags command query depth,
      l.env.configPath? = some path → t₀.contains (.ofString path) = false →
      Invocation.ofArguments l.args = .run flags command → command.Compiles query depth →
      Report.Agrees flags l.env (l.report t') (l.report t₀)

variable {flags : Flags} {force : Bool} {k : Call} {t : FileTree} {path : String}

namespace Call

variable [Library]

theorem eq_of_does {command : Command} {r : Except Failure Unit} {text : String} {m' : Machine}
    (h : Invocation.ofArguments k.args = .run flags command)
    (hd : Does (execute flags k.env command) { files := t, input := k.input } r text m') :
    (∃ log, k.report t = Run.report flags k.env (r, ⟨text, log⟩)) ∧ k.effect t = m'.files := by
  have ⟨log, hr⟩ := run_eq h hd
  exact ⟨⟨log, by rw [report, hr]⟩, by rw [effect, hr]⟩

theorem effect_of_not_inits (h : ∀ force, ¬k.Inits force) (t : FileTree) : k.effect t = t := by
  cases hi : Invocation.ofArguments k.args
  case run flags command =>
    have hc (force : Bool) : command ≠ .initConfig force := fun he => h force ⟨flags, he ▸ hi⟩
    have ⟨r, text, hd⟩ := reads_execute flags k.env hc ⟨t, k.input⟩
    exact (eq_of_does hi hd).2
  all_goals
    simp only [effect, run, hi]
    rfl

-- Without a path nothing is initialised. Otherwise the exit code tells if this is completed.
theorem Inits.cases (h : k.Inits force) (t : FileTree) :
    k.env.configPath? = none ∧ k.effect t = t ∧ (k.report t).code = 5 ∨
    ∃ path done, k.env.configPath? = some path ∧
      Initialised force (.ofString path) t done (k.effect t) ∧
      (k.report t).code = if done then 0 else 5 := by
  obtain ⟨flags, hi⟩ := h
  cases hp : k.env.configPath?
  case none =>
    have hd : Does (runInit flags.quiet k.env force) ⟨t, k.input⟩ (.error (.config .noPath)) ""
        ⟨t, k.input⟩ := by
      refine .bind_error ?_
      simp only [configPath, hp]
      exact .throw
    obtain ⟨⟨log, hr⟩, he⟩ := eq_of_does hi hd
    exact .inl ⟨rfl, he, by rw [hr]; rfl⟩
  case some path =>
    right
    cases does_runInit flags.quiet force hp ⟨t, k.input⟩
    case inl hd =>
      obtain ⟨e, t', hd, ht⟩ := hd
      obtain ⟨⟨log, hr⟩, he⟩ := eq_of_does hi hd
      exact ⟨path, false, rfl, he ▸ ht, by rw [hr]; rfl⟩
    case inr hd =>
      obtain ⟨t', text, hd, ht⟩ := hd
      obtain ⟨⟨log, hr⟩, he⟩ := eq_of_does hi hd
      exact ⟨path, true, rfl, he ▸ ht, by rw [hr]; rfl⟩

theorem Inits.initialised (h : k.Inits force) (hp : k.env.configPath? = some path)
    (t : FileTree) : ∃ done, Initialised force (.ofString path) t done (k.effect t) ∧
      (k.report t).code = if done then 0 else 5 := by
  cases h.cases t
  case inl h => simp [h.1] at hp
  case inr h =>
    have ⟨path', done, hp', h⟩ := h
    cases hp.symm.trans hp'
    exact ⟨done, h⟩

theorem Inits.completes (h : k.Inits force) (hc : (k.report t).code = 0) :
    ∃ path, k.env.configPath? = some path ∧
      Initialised force (.ofString path) t true (k.effect t) := by
  cases h.cases t
  case inl h => simp [h.2.2] at hc
  case inr h =>
    have ⟨path, done, hp, hi, hd⟩ := h
    cases done
    case false => simp [hd] at hc
    case true => exact ⟨path, hp, hi⟩

theorem effect_cases (k : Call) (t : FileTree) :
    k.effect t = t ∨ ∃ force path done, k.Inits force ∧ k.env.configPath? = some path ∧
      Initialised force (.ofString path) t done (k.effect t) := by
  by_cases h : ∀ force, ¬k.Inits force
  case pos => exact .inl (effect_of_not_inits h t)
  case neg =>
    simp only [not_forall, not_not] at h
    have ⟨force, h⟩ := h
    cases h.cases t
    case inl h => exact .inl h.2.1
    case inr hi =>
      have ⟨path, done, hp, hi, _⟩ := hi
      exact .inr ⟨force, path, done, h, hp, hi⟩

theorem wellFormed_effect (k : Call) (hw : t.WellFormed) : (k.effect t).WellFormed := by
  cases k.effect_cases t
  case inl h => rwa [h]
  case inr h =>
    have ⟨_, _, _, _, _, h⟩ := h
    exact h.wellFormed hw

theorem find_effect {path : Path} (k : Call)
    (hf : t.find path = .ok (.file Config.template.toUTF8)) :
    (k.effect t).find path = .ok (.file Config.template.toUTF8) := by
  cases k.effect_cases t
  case inl h => rwa [h]
  case inr h =>
    have ⟨_, _, _, _, _, h⟩ := h
    exact h.find_of_find hf

end Call

namespace FileTree

variable [Library]

theorem wellFormed_after (hw : t.WellFormed) (ks : List Call) : (t.after ks).WellFormed := by
  induction ks generalizing t
  case nil => exact hw
  case cons k ks hi => exact hi (k.wellFormed_effect hw)

theorem find_after {path : Path} (hf : t.find path = .ok (.file Config.template.toUTF8))
    (ks : List Call) : (t.after ks).find path = .ok (.file Config.template.toUTF8) := by
  induction ks generalizing t
  case nil => exact hf
  case cons k ks hi => exact hi (k.find_effect hf)

-- What differs after many runs was changed by one of them.
theorem changed_after {q : Place} {ks : List Call} (h : (t.after ks).at? q ≠ t.at? q) :
    ∃ ks₁ k ks₂, ks = ks₁ ++ k :: ks₂ ∧ (∃ force, k.Inits force) ∧
      (k.effect (t.after ks₁)).at? q ≠ (t.after ks₁).at? q := by
  induction ks generalizing t
  case nil => exact absurd rfl h
  case cons k ks hi =>
    by_cases hk : (k.effect t).at? q = t.at? q
    case pos =>
      have ⟨ks₁, l, ks₂, hs, hl⟩ := hi (t := k.effect t) (hk ▸ h)
      exact ⟨k :: ks₁, l, ks₂, by rw [hs, List.cons_append], hl⟩
    case neg =>
      refine ⟨[], k, ks, rfl, ?_, hk⟩
      by_contra hn
      exact hk (by rw [k.effect_of_not_inits (not_exists.mp hn)])

end FileTree

namespace Config

-- A fresh configuration file leaves every setting at its default. The pieces of its text are much
-- faster to evaluate than the whole.
theorem parse?_template : parse? template = some .default := by
  rw [parse?, Toml.read?]
  delta template
  simp only [String.toList_append, -String.reduceAppend]
  decide +kernel

theorem inEffect_of_find {env : Environment} {c : Config} {s : String}
    (hp : env.configPath? = some path) (hf : t.find (.ofString path) = .ok (.file s.toUTF8))
    (hc : parse? s = some c) (hl : 1 ≤ c.compiler.maxDepth) (hu : c.compiler.maxDepth ≤ 256) :
    InEffect env t c := by
  have hs : Stored env t s :=
    ⟨path, _, hp, contains_of_find hf, read_of_find hf, Text.fromUTF8?_toUTF8 s⟩
  exact .stored hs hc hl hu

theorem inEffect_of_template {env : Environment} (hp : env.configPath? = some path)
    (hf : t.find (.ofString path) = .ok (.file template.toUTF8)) : InEffect env t .default :=
  inEffect_of_find hp hf parse?_template (by decide) (by decide)

end Config

namespace Call

variable [Library] {command : Command} {query : Option String} {depth : Option Nat} {t' : FileTree}
variable {c : Config}

-- A run depends on the files only by the configuration.
theorem agrees (h : Invocation.ofArguments k.args = .run flags command)
    (hc : command.Compiles query depth) (ht : Config.InEffect k.env t c)
    (ht' : Config.InEffect k.env t' c) :
    Report.Agrees flags k.env (k.report t) (k.report t') := by
  have ⟨r, hr⟩ := exists_result c (given? query k.input) depth
  have ⟨text, hr⟩ := hr flags k.env command
  have ⟨⟨log, hl⟩, _⟩ := eq_of_does h (hr ⟨t, k.input⟩ query hc ht rfl)
  have ⟨⟨log', hl'⟩, _⟩ := eq_of_does h (hr ⟨t', k.input⟩ query hc ht' rfl)
  rw [hl, hl']
  cases r
  case ok => exact ⟨rfl, rfl, fun h => absurd rfl h⟩
  case error => exact ⟨rfl, rfl, fun _ => ⟨_, _, _, rfl, rfl⟩⟩

theorem safe (k : Call) (hw : t.WellFormed) : k.Safe t where
  reads h := effect_of_not_inits h t
  changes q hq := by
    cases k.effect_cases t
    case inl h => exact absurd (by rw [h]) hq
    case inr h =>
      have ⟨_, path, _, _, hp, h⟩ := h
      exact ⟨path, hp, h.changes hq⟩
  refuses path h hp hc := by
    have ⟨done, hi, hd⟩ := h.initialised hp t
    have ⟨hn, he⟩ := hi.eq_of_contains hc
    subst hn
    exact ⟨hd, he⟩
  overwrites path q h hp hq ho := by
    have ⟨_, hi, _⟩ := h.initialised hp t
    exact hi.overwrites hw hq ho
  fails force q content h hc := by
    cases h.cases t
    case inl h => rw [h.2.1]
    case inr h =>
      have ⟨_, done, _, hi, hd⟩ := h
      cases done
      case false => exact hi.file_iff
      case true => exact absurd hd hc
  lasts force h hc := by
    have ⟨path, hp, hi⟩ := h.completes hc
    exact ⟨path, hp, fun ks => find_after hi.find ks⟩
  restores force path t' h hc hp ht l t₀ flags command query depth hl hn ha hq := by
    have ⟨path', hp', hi⟩ := h.completes hc
    cases hp.symm.trans hp'
    exact agrees ha hq (Config.inEffect_of_template hl (ht.trans hi.find)) (.default hl hn)

end Call

-- Whatever was run before, every run is safe. What differs from the beginning was changed by an
-- initialisation of the configuration.
theorem safe_after [Library] (t : FileTree) (h : t.WellFormed) (ks : List Call) :
    (∀ q, (t.after ks).at? q ≠ t.at? q → ∃ ks₁ k ks₂, ks = ks₁ ++ k :: ks₂ ∧
      (∃ force, k.Inits force) ∧ (k.effect (t.after ks₁)).at? q ≠ (t.after ks₁).at? q) ∧
    ∀ k : Call, k.Safe (t.after ks) :=
  ⟨fun _ => changed_after, fun k => k.safe (wellFormed_after h ks)⟩

theorem safe_after_broken :
    let env : Environment := {
      configPath := some "/plq.toml", configHome := none, home := none, accountHome := none,
      noColor := none, logFilter := none
    }
    let t : FileTree := FileTree.put ⟨[], []⟩ ["plq.toml"] (.file "compiler = [".toUTF8)
    let check : Call := ⟨env, ["check", "a:1"], .empty⟩
    let init : Call := ⟨env, ["config", "init"], .empty⟩
    let forced : Call := ⟨env, ["config", "init", "--force"], .empty⟩
    t.WellFormed ∧ check.effect t = t ∧ (check.report t).code = 5 ∧
      (init.report t).code = 5 ∧ init.effect t = t ∧ (forced.report t).code = 0 ∧
      (check.report (t.after [forced, init])).code = 0 := by
  intro env t check init forced
  have hw : t.WellFormed := WellFormed.root.put rfl nofun
  have hs (k : Call) : k.Safe t := (safe_after t hw []).2 k
  have hc : Invocation.ofArguments check.args = .run .none (.check (some "a:1")) := by
    decide +kernel
  have hi : init.Inits false := ⟨.none, by decide +kernel⟩
  have hf : forced.Inits true := ⟨.none, by decide +kernel⟩
  have hr : check.effect t = t := by
    refine (hs check).reads fun force h => ?_
    have ⟨_, h⟩ := h
    cases hc.symm.trans h
  have hn : (init.report t).code = 5 ∧ init.effect t = t :=
    (hs init).refuses "/plq.toml" hi rfl (by decide +kernel)
  have h0 : (forced.report t).code = 0 := by decide +kernel
  have ⟨path, hp, hl⟩ := (hs forced).lasts true hf h0
  cases hp
  have hk : (t.after [forced, init]).find (.ofString "/plq.toml") =
      (forced.effect t).find (.ofString "/plq.toml") := by
    rw [after_cons, hl, ← hl [], after_nil]
  have ha : Report.Agrees .none env (check.report (t.after [forced, init]))
      (check.report ⟨[], []⟩) :=
    (hs forced).restores true _ _ hf h0 rfl hk check _ _ _ _ _ rfl (by decide +kernel) hc ⟨rfl, rfl⟩
  refine ⟨hw, hr, by decide +kernel, hn.1, hn.2, h0, ?_⟩
  exact ha.code.trans (by decide +kernel)

-- A path which goes up from a missing directory leads nowhere until the directory is created, and
-- then to a file which was there all along.
theorem overwrites_not_forced :
    let env : Environment := {
      configPath := some "/a/../plq.toml", configHome := none, home := none, accountHome := none,
      noColor := none, logFilter := none
    }
    let t : FileTree := FileTree.put ⟨[], []⟩ ["plq.toml"] (.file "version = 1\n".toUTF8)
    let init : Call := ⟨env, ["config", "init"], .empty⟩
    init.Inits false ∧ t.WellFormed ∧ (init.report t).code = 0 ∧
      t.at? ["plq.toml"] = some (.file "version = 1\n".toUTF8) ∧
      (init.effect t).at? ["plq.toml"] = some (.file Config.template.toUTF8) ∧
      "version = 1\n".toUTF8 ≠ Config.template.toUTF8 := by
  intro env t init
  have hw : t.WellFormed := WellFormed.root.put rfl nofun
  refine ⟨⟨.none, by decide +kernel⟩, hw, by decide +kernel, by rfl, by rfl, fun h => ?_⟩
  have h := congrArg String.fromUTF8? h
  rw [Text.fromUTF8?_toUTF8, Text.fromUTF8?_toUTF8, Option.some.injEq] at h
  exact absurd h (by decide +kernel)

end SearchQuery
