import SearchQuery.Proofs.Calls
import SearchQuery.Proofs.FileErrors
import SearchQuery.Proofs.Library

namespace SearchQuery

open Text CommandM Run FileTree

-- What the command puts out on the machine `m` is inert. If it succeeds, with the result `a` and on
-- the machine `m'`, then `Q a m'` holds.
def CommandM.Inert (x : CommandM (StateM Machine) α) (m : Machine)
    (Q : α → Machine → Prop) : Prop :=
  ∀ out, ∃ r text log m',
    (x.run.run out).run m = ((r, ⟨out.text ++ text, out.log ++ log⟩), m') ∧ IsInert text ∧
      (∀ r ∈ log, r.IsInert) ∧
      match r with
      | .ok a    => Q a m'
      | .error e => IsInert e.message

namespace CommandM.Inert

variable {α β : Type} {x : CommandM (StateM Machine) α} {f : α → CommandM (StateM Machine) β}
variable {Q : α → Machine → Prop} {R : β → Machine → Prop} {m : Machine}

theorem pure (h : Q a m) : Inert (pure a) m Q :=
  fun out => ⟨.ok a, "", [], m, by simp; rfl, isInert_empty, nofun, h⟩

theorem throw (h : IsInert e.message) : Inert (throw e : CommandM (StateM Machine) α) m Q :=
  fun out => ⟨.error e, "", [], m, by simp; rfl, isInert_empty, nofun, h⟩

theorem host {action : StateM Machine α} (h : Q (action.run m).1 (action.run m).2) :
    Inert (Run.host action) m Q := by
  intro out
  refine ⟨.ok (action.run m).1, "", [], (action.run m).2, ?_, isInert_empty, nofun, h⟩
  simp [Run.host]
  rfl

theorem bind (hx : Inert x m Q) (hf : ∀ a m', Q a m' → Inert (f a) m' R) :
    Inert (x >>= f) m R := by
  intro out
  obtain ⟨r, s, log, m₁, hx, hs, hl, hr⟩ := hx out
  cases r
  case error e =>
    refine ⟨.error e, s, log, m₁, ?_, hs, hl, hr⟩
    rw [ExceptT.run_bind, StateT.run_bind, StateT.run_bind, hx]
    rfl
  case ok a =>
    obtain ⟨r, t, log', m₂, hf, ht, hl', hr⟩ := hf a m₁ hr ⟨out.text ++ s, out.log ++ log⟩
    refine ⟨r, s ++ t, log ++ log', m₂, ?_, isInert_append.mpr ⟨hs, ht⟩, ?_, hr⟩
    · rw [ExceptT.run_bind, StateT.run_bind, StateT.run_bind, hx, ← String.append_assoc,
        ← List.append_assoc]
      exact hf
    · exact List.forall_mem_append.mpr ⟨hl, hl'⟩

theorem log {rs : List Log.Record} {Q : Unit → Machine → Prop} (h : ∀ r ∈ rs, r.IsInert)
    (hq : Q () m) : Inert (Run.log rs) m Q := by
  intro out
  refine ⟨.ok (), "", rs, m, ?_, isInert_empty, h, hq⟩
  simp [Run.log]
  rfl

theorem print {line : String} {Q : Unit → Machine → Prop} (h : IsInert line) (hq : Q () m) :
    Inert (Run.print line) m Q := by
  intro out
  refine ⟨.ok (), line ++ "\n", [], m, ?_, ?_, nofun, hq⟩
  · simp [Run.print, Run.write]
    rfl
  · exact isInert_append.mpr ⟨h, isInert_literal (by decide)⟩

theorem bind_any (hx : Inert x m fun _ _ => True) (hf : ∀ a m', Inert (f a) m' R) :
    Inert (x >>= f) m R :=
  hx.bind fun a m' _ => hf a m'

-- What comes first has a known result, and leaves the machine as it is.
theorem bind_of_eq (hx : Inert x m fun b m' => b = a ∧ m' = m) (hf : Inert (f a) m R) :
    Inert (x >>= f) m R := by
  refine hx.bind ?_
  rintro _ _ ⟨rfl, rfl⟩
  exact hf

theorem attempt {action : StateM Machine (Except FileError α)} {failure : FileError → Failure}
    (hq : ∀ a m', action.run m = (.ok a, m') → Q a m')
    (he : ∀ e m', action.run m = (.error e, m') → IsInert (failure e).message) :
    Inert (Run.attempt failure action) m Q := by
  refine .bind (.host (Q := fun r m' => action.run m = (r, m')) rfl) fun r m' h => ?_
  cases r
  case ok a => exact .pure (hq a m' h)
  case error e => exact .throw (he e m' h)

end CommandM.Inert

theorem FileError.IsKnown.isInert_message {e : FileError} (h : e.IsKnown) : IsInert e.message := by
  cases e
  case other => exact h.elim
  all_goals exact isInert_literal (by decide)

namespace Failure

theorem isInert_config {e : ConfigError} (h : IsInert e.message) :
    IsInert (Failure.config e).message :=
  isInert_append.mpr ⟨isInert_literal (by decide), h⟩

theorem isInert_input {e : FileError} (h : e.IsKnown) : IsInert (Failure.input e).message :=
  isInert_append.mpr ⟨isInert_literal (by decide), h.isInert_message⟩

end Failure

theorem Config.isInert_setting {name : String} (h : IsInert name) (value : Option Bool) :
    IsInert (setting name value) := by
  unfold setting
  split
  case h_1 => exact isInert_literal (by decide)
  case h_2 b =>
    simp only [isInert_append]
    refine ⟨⟨⟨h, isInert_literal (by decide)⟩, ?_⟩, isInert_literal (by decide)⟩
    cases b <;> exact isInert_literal (by decide)

theorem Config.isInert_text (c : Config) : IsInert c.text := by
  unfold text
  simp only [isInert_append]
  exact ⟨⟨⟨⟨isInert_literal (by decide), isInert_nat _⟩, isInert_literal (by decide)⟩,
    isInert_setting (isInert_literal (by decide)) _⟩,
    isInert_setting (isInert_literal (by decide)) _⟩

theorem Text.isInert_trimAsciiEnd (h : IsInert s) : IsInert s.trimAsciiEnd.toString := by
  have he : s.trimAsciiEnd.toString ++ (s.takeEndWhile Char.isWhitespace).copy = s :=
    String.dropEndWhile_append_takeEndWhile
  exact (isInert_append.mp (he ▸ h)).1

-- There is a configuration to go by, or no place to look for one.
def Config.Loadable (env : Environment) (t : FileTree) : Prop :=
  env.configPath? = none ∨ ∃ c, Config.InEffect env t c

-- Colours are switched off, by a flag or the environment or the configuration.
inductive Colorless (flags : Flags) (env : Environment) (t : FileTree) : Prop
  | flag :
    flags.noColor → Colorless flags env t
  | environment :
    env.noColor = some v → v ≠ "" → Colorless flags env t
  | config :
    Config.InEffect env t c → c.color = some false → Colorless flags env t

theorem Config.InEffect.unique (h : InEffect env t c) (h' : InEffect env t c') : c = c' := by
  have ⟨log, hl⟩ := does_loadConfig (m := ⟨t, .empty⟩) h .empty
  have ⟨log', hl'⟩ := does_loadConfig (m := ⟨t, .empty⟩) h' .empty
  cases hl.symm.trans hl'
  rfl

theorem Colorless.color_context (h : Colorless flags env t) (hc : Config.InEffect env t c) :
    (context flags env c).color = false := by
  cases h
  case flag h => simp [context, h]
  case environment v he hv => simp [context, he, hv]
  case config c' hi h =>
    cases hc.unique hi
    simp [context, h]

namespace Run

variable {env : Environment} {flags : Flags} {ctx : Context} {c : Config} {m : Machine}
variable {path : String} {place : Path} {bytes : ByteArray} {failure : FileError → Failure}

theorem inert_debug {target text : String} {Q : Unit → Machine → Prop} (ht : IsInert target)
    (hx : IsInert text) (hq : Q () m) : Inert (debug target text) m Q :=
  .log (by simpa using ⟨ht, hx⟩) hq

theorem inert_configPath :
    Inert (configPath env) m fun path m' => env.configPath? = some path ∧ m' = m := by
  unfold configPath
  split
  case h_1 path h => exact .pure ⟨h, rfl⟩
  case h_2 => exact .throw (Failure.isInert_config (isInert_literal (by decide)))

theorem inert_contains :
    Inert (host (Host.contains place)) m fun b m' => b = m.files.contains place ∧ m' = m :=
  .host ⟨rfl, rfl⟩

theorem inert_read (h : m.files.read place = .ok bytes) :
    Inert (attempt failure (Host.read place)) m fun b m' => b = bytes ∧ m' = m := by
  have hr : (Host.read place : StateM Machine _).run m = (.ok bytes, m) := h ▸ rfl
  refine .attempt (fun a m' ha => ?_) (fun e m' he => ?_)
  · cases hr.symm.trans ha
    exact ⟨rfl, rfl⟩
  · cases hr.symm.trans he

theorem inert_decode (h : String.fromUTF8? bytes = some s) :
    Inert (decode failure bytes) m fun t m' => t = s ∧ m' = m := by
  simp only [decode, h]
  exact .pure ⟨rfl, rfl⟩

theorem inert_act {action : FileTree.Action Unit} (h : action.FailsKnown)
    (hf : ∀ e, e.IsKnown → IsInert (failure e).message) :
    Inert (attempt failure (Machine.act action)) m fun _ _ => True := by
  refine .attempt (fun _ _ _ => trivial) (fun e m' he => hf e ?_)
  cases hr : action m.files
  case ok => cases (run_act_ok hr).symm.trans he
  case error =>
    cases (run_act_error hr).symm.trans he
    exact h _ _ _ hr

-- The path of the configuration stands in the log.
theorem inert_loadConfig [Library] (hp : ∀ path ∈ env.configPath?, IsInert path)
    (h : Config.Loadable env m.files) :
    Inert (loadConfig env) m fun c m' => Config.InEffect env m.files c ∧ m' = m := by
  have hd {text : String} (ht : IsInert text) :
      Inert (debug "plq::commands::config" text) m fun d m' => d = () ∧ m' = m :=
    inert_debug (isInert_literal (by decide)) ht ⟨rfl, rfl⟩
  unfold loadConfig
  refine .bind inert_configPath ?_
  rintro path _ ⟨he, rfl⟩
  refine .bind_of_eq inert_contains ?_
  obtain hn | ⟨c, hc⟩ := h
  case inl => cases hn.symm.trans he
  case inr =>
    have hi := hc
    cases hc
    case default hx hc =>
      cases hx.symm.trans he
      simp only [hc]
      refine .bind_of_eq (hd ?_) (.pure ⟨hi, rfl⟩)
      simp only [isInert_append]
      exact ⟨⟨isInert_literal (by decide), hp path he⟩, isInert_literal (by decide)⟩
    case stored s hs hq hl hu =>
      obtain ⟨_, bytes, hx, hc, hr, ht⟩ := hs
      cases hx.symm.trans he
      simp only [hc, if_pos]
      refine .bind_of_eq (inert_read hr) <| .bind_of_eq (inert_decode ht) ?_
      simp only [hq]
      refine .bind_of_eq (hd ?_) ?_
      · exact isInert_append.mpr ⟨isInert_literal (by decide), hp path he⟩
      · rw [if_pos (by simp [Config.acceptsDepth, Config.depthLimit, hl, hu])]
        exact .pure ⟨hi, rfl⟩

theorem inert_input :
    Inert (queryText.input : CommandM (StateM Machine) String) m fun _ _ => True := by
  refine .bind_any (.host trivial) fun bytes m' => ?_
  unfold decode
  split
  · exact .pure trivial
  · exact .throw (Failure.isInert_input trivial)

theorem inert_queryText (query : Option String) :
    Inert (queryText query : CommandM (StateM Machine) String) m fun _ _ => True := by
  unfold queryText
  split
  · split
    · exact inert_input
    · exact .pure trivial
  · exact inert_input

theorem inert_compileQuery (options : CompilerOptions) (text : String) :
    Inert (compileQuery options text : CommandM (StateM Machine) Document) m fun _ _ => True := by
  refine .bind_any (.log (Log.isInert_ofCompilation options text) trivial) fun _ m' => ?_
  split
  · exact .pure trivial
  · exact .throw (ParseError.isInert_message _)

theorem inert_runCompile (query : Option String) (depth : Option Nat) :
    Inert (runCompile ctx c query depth : CommandM (StateM Machine) Unit) m fun _ _ => True := by
  refine .bind_any (inert_queryText query) fun text m₁ => ?_
  refine .bind_any (inert_debug ?_ ?_ trivial) fun _ m₂ => ?_
  · exact isInert_literal (by decide)
  · simp only [isInert_append]
    exact ⟨⟨isInert_literal (by decide), isInert_nat _⟩, isInert_literal (by decide)⟩
  refine .bind_any (inert_debug ?_ ?_ trivial) fun _ m₃ => ?_
  · exact isInert_literal (by decide)
  · exact isInert_append.mpr ⟨isInert_literal (by decide), isInert_nat _⟩
  refine .bind_any (inert_compileQuery _ text) fun d m₄ => .print ?_ trivial
  split
  · exact d.isInert_encode.1
  · exact d.isInert_encode.2

theorem inert_runCheck (hc : ctx.color = false) (query : Option String) :
    Inert (runCheck ctx c query : CommandM (StateM Machine) Unit) m fun _ _ => True := by
  refine .bind_any (inert_queryText query) fun text m₁ => ?_
  refine .bind_any (inert_compileQuery _ text) fun d m₂ => ?_
  split
  · exact .pure trivial
  · refine .print ?_ trivial
    simp only [hc]
    exact isInert_literal (by decide)

theorem inert_runShow [Library] (hc : ctx.color = false) (hp : ∀ path ∈ env.configPath?, IsInert path)
    (h : Config.Loadable env m.files) :
    Inert (runShow ctx env : CommandM (StateM Machine) Unit) m fun _ _ => True := by
  refine .bind (inert_loadConfig hp h) fun c m₁ _ => ?_
  refine .bind inert_configPath fun path m₂ he => ?_
  split
  case isTrue => exact .pure trivial
  case isFalse =>
    refine .bind_any (.print ?_ trivial) fun _ m₃ => ?_
    · rw [hc, isInert_append]
      exact ⟨isInert_literal (by decide), isInert_literal (by decide)⟩
    refine .bind_any (.print ?_ trivial) fun _ m₄ => ?_
    · exact isInert_append.mpr ⟨isInert_literal (by decide), hp path he.1⟩
    refine .bind inert_contains fun found m₅ _ => ?_
    refine .bind_any (.print ?_ trivial) fun _ m₆ => ?_
    · simp only [isInert_append]
      exact ⟨⟨isInert_literal (by decide), isInert_bool found⟩, isInert_literal (by decide)⟩
    refine .bind_any (.print ?_ trivial) fun _ m₇ => ?_
    · exact isInert_trimAsciiEnd c.isInert_text
    split
    case isTrue => exact .pure trivial
    case isFalse => exact .print (isInert_literal (by decide)) trivial

theorem inert_runInit (quiet force : Bool) (hp : ∀ path ∈ env.configPath?, IsInert path) :
    Inert (runInit quiet env force : CommandM (StateM Machine) Unit) m fun _ _ => True := by
  refine .bind inert_configPath fun path m₁ he => .bind inert_contains fun found m₂ _ => ?_
  split
  case isTrue =>
    refine .throw (Failure.isInert_config ?_)
    exact isInert_append.mpr ⟨hp path he.1, isInert_literal (by decide)⟩
  case isFalse =>
    have hd (e : FileError) (he : e.IsKnown) :
        IsInert (Failure.config (.directoryNotCreated e)).message :=
      Failure.isInert_config <|
        isInert_append.mpr ⟨isInert_literal (by decide), he.isInert_message⟩
    have hw (e : FileError) (he : e.IsKnown) : IsInert (Failure.config (.notWritten e)).message :=
      Failure.isInert_config <|
        isInert_append.mpr ⟨isInert_literal (by decide), he.isInert_message⟩
    refine .bind_any (inert_act Action.failsKnown_createDirectories hd) fun _ m₃ => ?_
    refine .bind_any (inert_act (Action.failsKnown_write _) hw) fun _ m₄ => ?_
    split
    case isTrue => exact .pure trivial
    case isFalse =>
      exact .print (isInert_append.mpr ⟨isInert_literal (by decide), hp path he.1⟩) trivial

theorem inert_execute [Library] (hp : ∀ path ∈ env.configPath?, IsInert path)
    (h : Config.Loadable env m.files) (hc : Colorless flags env m.files) {command : Command}
    (hn : ∀ shell, command ≠ .completions shell) :
    Inert (execute flags env command : CommandM (StateM Machine) Unit) m fun _ _ => True := by
  cases command
  case compile query depth =>
    exact .bind (inert_loadConfig hp h) fun c m' _ => inert_runCompile query depth
  case check query =>
    exact .bind (inert_loadConfig hp h) fun c m' hi => inert_runCheck (hc.color_context hi.1) query
  case showConfig =>
    refine .bind (inert_loadConfig hp h) ?_
    rintro c _ ⟨hi, rfl⟩
    exact inert_runShow (hc.color_context hi) hp h
  case configPath => exact .bind inert_configPath fun path m' he => .print (hp path he.1) trivial
  case initConfig force => exact inert_runInit flags.quiet force hp
  case completions shell => exact absurd rfl (hn shell)

-- The title of an error goes by the flag and the environment alone.
def errorTitle (flags : Flags) (env : Environment) : String :=
  if flags.noColor ∨ env.noColor ≠ none then "Error:" else Style.bold (Style.red "Error:")

theorem errorLine_eq (flags : Flags) (env : Environment) (e : Failure) :
    errorLine flags env e = errorTitle flags env ++ " " ++ e.message ++ "\n" := by
  unfold errorLine errorTitle
  cases flags.noColor <;> cases env.noColor <;> rfl

theorem isInert_errorTitle (h : flags.noColor ∨ env.noColor ≠ none) :
    IsInert (errorTitle flags env) := by
  rw [errorTitle, if_pos h]
  exact isInert_literal (by decide)

end Run

-- The library has no reason to colour the log.
inductive Environment.LogsPlainly [Library] (env : Environment) : Prop
  | uncolored :
    Library.colorsLog env = false → LogsPlainly env
  | environment :
    env.noColor = some v → v ≠ "" → LogsPlainly env
  | redirected :
    env.colorForced = none → env.onTerminal = false → LogsPlainly env

theorem Library.Documented.colorsLog [Library] (hd : Documented) {env : Environment}
    (hs : env.logStyle = none) (h : env.LogsPlainly) : Library.colorsLog env = false := by
  cases h
  case uncolored h => exact h
  case environment v he hv => exact hd.noColor hs he hv
  case redirected hf ht => exact hd.redirected hs hf ht

-- With colours switched off, runs are inert but for two things: the title of an error, from which a
-- configuration alone does not take the colours, and what the library makes of the log.
theorem run_inert [Library] (hd : Library.Documented) (env : Environment) (m : Machine)
    (args : List String) (flags : Flags) (command : Command) (hs : env.logStyle = none)
    (h : Invocation.ofArguments args = .run flags command)
    (hn : ∀ shell, command ≠ .completions shell) (hl : Config.Loadable env m.files)
    (hp : ∀ path ∈ env.configPath?, IsInert path) (hc : Colorless flags env m.files) :
    let report := ((run env args : StateM Machine Report).run m).1
    IsInert report.stdout ∧
    (∃ rs message, (∀ r ∈ rs, r.IsInert) ∧ IsInert message ∧
      report.stderr = Library.log (logSettings flags) env rs ++
        if report.code = 0 then "" else errorTitle flags env ++ " " ++ message ++ "\n") ∧
    (env.LogsPlainly → (∀ filter ∈ env.logFilter, IsInert filter) →
      (report.code = 0 ∨ flags.noColor ∨ env.noColor ≠ none) → IsInert report.stderr) := by
  obtain ⟨r, text, rs, m', hx, ht, hr, he⟩ := inert_execute hp hl hc hn .empty
  rw [show Output.empty.text ++ text = text from String.empty_append] at hx
  have hi (hl : env.LogsPlainly) (hf : ∀ filter ∈ env.logFilter, IsInert filter) :
      IsInert (Library.log (logSettings flags) env rs) :=
    hd.plain (hd.colorsLog hs hl) hf hr
  replace hx : (run env args : StateM Machine Report).run m =
      (Run.report flags env (r, ⟨text, rs⟩), m') := by
    simp only [run, h, StateT.run_bind, hx]
    rfl
  simp only [hx]
  cases r
  case ok =>
    exact ⟨ht, ⟨rs, "", hr, isInert_empty, String.append_empty.symm⟩, fun hl hf _ => hi hl hf⟩
  case error e =>
    have hz : e.code ≠ 0 := by cases e <;> simp [Failure.code]
    refine ⟨ht, ⟨rs, e.message, hr, he, ?_⟩, fun hl hf hn => ?_⟩
    · simp only [Run.report, hz, if_false, errorLine_eq]
    · refine isInert_append.mpr ⟨hi hl hf, ?_⟩
      simp only [errorLine_eq, isInert_append]
      exact ⟨⟨⟨isInert_errorTitle (hn.resolve_left hz), isInert_literal (by decide)⟩, he⟩,
        isInert_literal (by decide)⟩

theorem Config.inEffect_uncolored {env : Environment} (h : env.configPath? = some "/plq.toml") :
    InEffect env (FileTree.put ⟨[], []⟩ ["plq.toml"] (.file "[output]\ncolor = false\n".toUTF8))
      ⟨.default, none, some false⟩ :=
  inEffect_of_find h (by rfl) (by decide +kernel) (by decide) (by decide)

theorem run_inert_unclosed :
    let env : Environment := {
      configPath := some "/plq.toml", configHome := none, home := none, accountHome := none,
      noColor := none, logFilter := none
    }
    let t : FileTree :=
      FileTree.put ⟨[], []⟩ ["plq.toml"] (.file "[output]\ncolor = false\n".toUTF8)
    let report := ((run env ["-v", "check", "(\x1b"] : StateM Machine Report).run ⟨t, .empty⟩).1
    Colorless { Flags.none with verbose := true } env t ∧ IsInert report.stdout ∧
      report.code = 1 ∧ ∃ log message, IsInert log ∧ IsInert message ∧
        report.stderr = log ++ (Style.bold (Style.red "Error:") ++ " " ++ message ++ "\n") := by
  intro env t report
  have h : Invocation.ofArguments ["-v", "check", "(\x1b"] =
      .run { Flags.none with verbose := true } (.check (some "(\x1b")) := by decide +kernel
  have hi : Config.InEffect env t ⟨.default, none, some false⟩ := Config.inEffect_uncolored rfl
  have hc : Colorless { Flags.none with verbose := true } env t := .config hi rfl
  have hp : ∀ path ∈ env.configPath?, IsInert path := by decide +kernel
  have ⟨ho, he, _⟩ := run_inert Library.documented env ⟨t, .empty⟩ _ _ _ rfl h nofun (.inr ⟨_, hi⟩)
    hp hc
  have hq : compile .default "(\x1b" = .error ⟨2, .closingParen⟩ := by decide +kernel
  have ha : Answers env { Flags.none with verbose := true } ⟨t, .empty⟩ (some "(\x1b") none report :=
    answers h ⟨rfl, rfl⟩
  have hn : report.code = 1 := (ha.error ⟨.default, none, some false⟩ _ _ hi rfl hq).1
  have ⟨rs, message, hr, hm, hs⟩ := he
  rw [if_neg (hn ▸ by decide)] at hs
  have hl : IsInert (Library.log (logSettings { Flags.none with verbose := true }) env rs) :=
    Library.documented.plain (Library.documented.redirected rfl rfl rfl) nofun hr
  exact ⟨hc, ho, hn, _, message, hl, hm, hs⟩

-- Colours are switched off, and still there is an escape character on the standard error.
structure Run.Defies [Library] (env : Environment) (t : FileTree) (args : List String) : Prop where
  accepted : ∃ flags command, Invocation.ofArguments args = .run flags command ∧
    (∀ shell, command ≠ .completions shell) ∧ Colorless flags env t
  inert    : ∀ arg ∈ args, IsInert arg
  loadable : Config.Loadable env t
  path     : ∀ path ∈ env.configPath?, IsInert path
  style    : env.logStyle = none
  seen     : ¬IsInert ((run env args : StateM Machine Report).run ⟨t, .empty⟩).1.stderr

-- So it is for the error of a run without colours by its configuration, for the log if its colours are
-- forced, and for complaints about a filter of the log.
theorem defies_switches :
    let env : Environment := {
      configPath := some "/plq.toml", configHome := none, home := none, accountHome := none,
      noColor := none, logFilter := none
    }
    let t : FileTree :=
      FileTree.put ⟨[], []⟩ ["plq.toml"] (.file "[output]\ncolor = false\n".toUTF8)
    Defies env t ["check", "("] ∧
    Defies { env with colorForced := some "1" } ⟨[], []⟩ ["--no-color", "-v", "config", "show"] ∧
    Defies { env with logFilter := some "a=\x1b" } ⟨[], []⟩ ["--no-color", "check", "a:1"] := by
  intro env t
  have hp : ∀ path ∈ env.configPath?, IsInert path := by decide +kernel
  have hi : Config.InEffect env t ⟨.default, none, some false⟩ := Config.inEffect_uncolored rfl
  have hd {env : Environment} (he : env.configPath? = some "/plq.toml") :
      Config.Loadable env ⟨[], []⟩ :=
    .inr ⟨_, .default he (by decide +kernel)⟩
  refine ⟨?title, ?log, ?complaint⟩
  case title =>
    have h : Invocation.ofArguments ["check", "("] = .run .none (.check (some "(")) := by
      decide +kernel
    refine ⟨⟨_, _, h, nofun, .config hi rfl⟩, by decide +kernel, .inr ⟨_, hi⟩, hp, rfl, ?_⟩
    have hq : compile .default "(" = .error ⟨1, .expression⟩ := by decide +kernel
    have ha : Answers env .none ⟨t, .empty⟩ (some "(") none _ := answers h ⟨rfl, rfl⟩
    have ⟨_, _, rs, hs⟩ := ha.error ⟨.default, none, some false⟩ _ _ hi rfl hq
    intro hn
    have ht := (isInert_append.mp (hs ▸ hn)).2
    rw [errorLine_eq, isInert_append, isInert_append, isInert_append] at ht
    exact absurd ht.1.1.1 (by decide +kernel)
  case log =>
    have h : Invocation.ofArguments ["--no-color", "-v", "config", "show"] =
        .run { Flags.none with noColor := true, verbose := true } .showConfig := by decide +kernel
    exact ⟨⟨_, _, h, nofun, .flag rfl⟩, by decide +kernel, hd rfl, hp, rfl, by decide +kernel⟩
  case complaint =>
    have h : Invocation.ofArguments ["--no-color", "check", "a:1"] =
        .run { Flags.none with noColor := true } (.check (some "a:1")) := by decide +kernel
    exact ⟨⟨_, _, h, nofun, .flag rfl⟩, by decide +kernel, hd rfl, hp, rfl, by decide +kernel⟩

end SearchQuery
