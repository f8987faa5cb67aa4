import Mathlib
import SearchQuery.CommandLine.Run

namespace SearchQuery

theorem Text.fromUTF8?_toUTF8 (s : String) : String.fromUTF8? s.toUTF8 = some s := by
  have h : s.toUTF8.IsValidUTF8 := s.isValidUTF8
  rw [String.fromUTF8?, dif_pos h]
  rfl

-- The command ends with `r` on the machine `m`, prints `text` and leaves `m'`, whatever was put
-- out before. What it logs is left open.
def CommandM.Does (x : CommandM (StateM Machine) α) (m : Machine) (r : Except Failure α)
    (text : String) (m' : Machine) : Prop :=
  ∀ out, ∃ log, (x.run.run out).run m = ((r, ⟨out.text ++ text, out.log ++ log⟩), m')

-- The command leaves every machine as it is.
def CommandM.Reads (x : CommandM (StateM Machine) α) : Prop :=
  ∀ m, ∃ r text, x.Does m r text m

namespace CommandM

variable {α β : Type} {x : CommandM (StateM Machine) α} {f : α → CommandM (StateM Machine) β}
variable {m m' m'' : Machine} {a : α} {e : Failure} {r : Except Failure β} {s t : String}

namespace Does

theorem pure : Does (pure a) m (.ok a) "" m :=
  fun out => ⟨[], by simp; rfl⟩

theorem throw : Does (throw e : CommandM (StateM Machine) α) m (.error e) "" m :=
  fun out => ⟨[], by simp; rfl⟩

theorem host {action : StateM Machine α} (h : action.run m = (a, m')) :
    Does (Run.host action) m (.ok a) "" m' := by
  intro out
  refine ⟨[], ?_⟩
  simp [Run.host, h]
  rfl

theorem bind (hx : x.Does m (.ok a) s m') (hf : (f a).Does m' r t m'') :
    (x >>= f).Does m r (s ++ t) m'' := by
  intro out
  have ⟨log, hx⟩ := hx out
  have ⟨log', hf⟩ := hf ⟨out.text ++ s, out.log ++ log⟩
  refine ⟨log ++ log', ?_⟩
  rw [ExceptT.run_bind, StateT.run_bind, StateT.run_bind, hx, ← String.append_assoc,
    ← List.append_assoc]
  exact hf

theorem quiet_bind (hx : x.Does m (.ok a) "" m') (hf : (f a).Does m' r t m'') :
    (x >>= f).Does m r t m'' := by
  simpa using hx.bind hf

theorem bind_error (hx : x.Does m (.error e) s m') : (x >>= f).Does m (.error e) s m' := by
  intro out
  have ⟨log, hx⟩ := hx out
  refine ⟨log, ?_⟩
  rw [ExceptT.run_bind, StateT.run_bind, StateT.run_bind, hx]
  rfl

theorem log (rs : List Log.Record) : Does (Run.log rs) m (.ok ()) "" m := by
  intro out
  refine ⟨rs, ?_⟩
  simp [Run.log]
  rfl

theorem write (text : String) : Does (Run.write text) m (.ok ()) text m := by
  intro out
  refine ⟨[], ?_⟩
  simp [Run.write]
  rfl

theorem print (line : String) : Does (Run.print line) m (.ok ()) (line ++ "\n") m :=
  .write _

theorem attempt_ok {action : StateM Machine (Except FileError α)} {failure : FileError → Failure}
    (h : action.run m = (.ok a, m')) : Does (Run.attempt failure action) m (.ok a) "" m' :=
  .quiet_bind (.host h) .pure

theorem attempt_error {action : StateM Machine (Except FileError α)} {failure : FileError → Failure}
    {e : FileError} (h : action.run m = (.error e, m')) :
    Does (Run.attempt failure action) m (.error (failure e)) "" m' :=
  .quiet_bind (.host h) .throw

end Does

namespace Reads

theorem pure : Reads (pure a) :=
  fun _ => ⟨_, _, .pure⟩

theorem throw : Reads (throw e : CommandM (StateM Machine) α) :=
  fun _ => ⟨_, _, .throw⟩

theorem log (rs : List Log.Record) : Reads (Run.log rs) :=
  fun _ => ⟨_, _, .log rs⟩

theorem write (text : String) : Reads (Run.write text) :=
  fun _ => ⟨_, _, .write text⟩

theorem print (line : String) : Reads (Run.print line) :=
  .write _

theorem bind (hx : x.Reads) (hf : ∀ a, (f a).Reads) : (x >>= f).Reads := by
  intro m
  have ⟨r, s, hx⟩ := hx m
  cases r
  case error e => exact ⟨_, _, hx.bind_error⟩
  case ok a =>
    have ⟨r, t, hf⟩ := hf a m
    exact ⟨_, _, hx.bind hf⟩

end Reads

end CommandM

-- There is a configuration file, which holds the text.
def Config.Stored (env : Environment) (t : FileTree) (s : String) : Prop :=
  ∃ path bytes, env.configPath? = some path ∧ t.contains (.ofString path) ∧
    t.read (.ofString path) = .ok bytes ∧ String.fromUTF8? bytes = some s

-- The configuration which a run goes by. Without a file it is the default one.
inductive Config.InEffect (env : Environment) (t : FileTree) : Config → Prop
  | default :
    env.configPath? = some path → t.contains (.ofString path) = false → InEffect env t .default
  | stored :
    Stored env t s → parse? s = some c → 1 ≤ c.compiler.maxDepth → c.compiler.maxDepth ≤ 256 →
    InEffect env t c

-- There is no configuration to go by.
inductive Config.Broken (env : Environment) (t : FileTree) : Prop
  | noPath :
    env.configPath? = none → Broken env t
  | unreadable :
    env.configPath? = some path → t.contains (.ofString path) →
    t.read (.ofString path) = .error e → Broken env t
  | notText :
    env.configPath? = some path → t.contains (.ofString path) →
    t.read (.ofString path) = .ok bytes → String.fromUTF8? bytes = none → Broken env t
  | unparsable :
    Stored env t s → parse? s = none → Broken env t
  | depth :
    Stored env t s → parse? s = some c →
    (c.compiler.maxDepth = 0 ∨ 256 < c.compiler.maxDepth) → Broken env t

variable {env : Environment} {flags : Flags} {ctx : Run.Context} {c : Config} {m : Machine}
variable {query : Option String} {depth : Option Nat} {options : CompilerOptions}
variable {t : FileTree} {d : Document} {e : ParseError} {s : String}

theorem Config.broken_or_inEffect (env : Environment) (t : FileTree) :
    Config.Broken env t ∨ ∃ c, Config.InEffect env t c := by
  cases hp : env.configPath?
  case none => exact .inl (.noPath hp)
  case some path =>
    cases hc : t.contains (.ofString path)
    case false => exact .inr ⟨_, .default hp hc⟩
    case true =>
      cases hr : t.read (.ofString path)
      case error => exact .inl (.unreadable hp hc hr)
      case ok bytes =>
        cases ht : String.fromUTF8? bytes
        case none => exact .inl (.notText hp hc hr ht)
        case some s =>
          have hs : Config.Stored env t s := ⟨path, bytes, hp, hc, hr, ht⟩
          cases hq : Config.parse? s
          case none => exact .inl (.unparsable hs hq)
          case some c =>
            by_cases hd : 1 ≤ c.compiler.maxDepth ∧ c.compiler.maxDepth ≤ 256
            case pos => exact .inr ⟨c, .stored hs hq hd.1 hd.2⟩
            case neg => exact .inl (.depth hs hq (by omega))

namespace Run

open CommandM

theorem does_configPath {path : String} (h : env.configPath? = some path) :
    Does (configPath env) m (.ok path) "" m := by
  simp only [configPath, h]
  exact .pure

theorem does_contains {path : Path} :
    Does (host (Host.contains path)) m (.ok (m.files.contains path)) "" m :=
  .host rfl

-- Whether there is a file at the configuration's path decides how it goes on.
theorem does_found {path : String} {f : String → Bool → CommandM (StateM Machine) α}
    {r : Except Failure α} {m' : Machine} (h : env.configPath? = some path)
    (hd : Does (f path (m.files.contains (.ofString path))) m r s m') :
    Does (do let path ← configPath env; f path (← host (Host.contains (Path.ofString path))))
      m r s m' :=
  .quiet_bind (does_configPath h) (.quiet_bind does_contains hd)

theorem does_decode {bytes : ByteArray} {failure : FileError → Failure}
    (h : String.fromUTF8? bytes = some s) : Does (decode failure bytes) m (.ok s) "" m := by
  simp only [decode, h]
  exact .pure

theorem does_decode_error {bytes : ByteArray} {failure : FileError → Failure}
    (h : String.fromUTF8? bytes = none) :
    Does (decode failure bytes) m (.error (failure .notText)) "" m := by
  simp only [decode, h]
  exact .throw

theorem does_read {path : Path} {bytes : ByteArray} {failure : FileError → Failure}
    (h : m.files.read path = .ok bytes) :
    Does (attempt failure (Host.read path)) m (.ok bytes) "" m :=
  .attempt_ok (h ▸ rfl)

theorem does_read_error {path : Path} {e : FileError} {failure : FileError → Failure}
    (h : m.files.read path = .error e) :
    Does (attempt failure (Host.read path)) m (.error (failure e)) "" m :=
  .attempt_error (h ▸ rfl)

theorem does_loadConfig [Library] (h : Config.InEffect env m.files c) :
    Does (loadConfig env) m (.ok c) "" m := by
  unfold loadConfig
  cases h
  case default path hp hc =>
    refine does_found hp ?_
    simp only [hc]
    exact .quiet_bind (.log _) .pure
  case stored s hs hq hl hu =>
    have ⟨path, bytes, hp, hc, hr, ht⟩ := hs
    refine does_found hp ?_
    simp only [hc, if_pos]
    refine .quiet_bind (does_read hr) <| .quiet_bind (does_decode ht) ?_
    simp only [hq]
    refine .quiet_bind (.log _) ?_
    rw [if_pos (by simp [Config.acceptsDepth, Config.depthLimit, hl, hu])]
    exact .pure

-- What is wrong depends on the files alone.
theorem does_loadConfig_error [Library] (h : Config.Broken env t) :
    ∃ e, ∀ m, m.files = t → Does (loadConfig env) m (.error (.config e)) "" m := by
  unfold loadConfig
  cases h
  case noPath hp =>
    refine ⟨.noPath, fun m hm => .bind_error ?_⟩
    simp only [configPath, hp]
    exact .throw
  case unreadable path e hp hc hr =>
    refine ⟨.unreadable e, fun m hm => does_found hp ?_⟩
    simp only [hm, hc, if_pos]
    exact .bind_error (does_read_error (hm ▸ hr))
  case notText hp hc hr ht =>
    refine ⟨.unreadable .notText, fun m hm => does_found hp ?_⟩
    simp only [hm, hc, if_pos]
    exact .quiet_bind (does_read (hm ▸ hr)) <| .bind_error (does_decode_error ht)
  case unparsable s hs hq =>
    have ⟨path, bytes, hp, hc, hr, ht⟩ := hs
    refine ⟨.unparsable (Library.tomlError s), fun m hm => does_found hp ?_⟩
    simp only [hm, hc, if_pos]
    refine .quiet_bind (does_read (hm ▸ hr)) <| .quiet_bind (does_decode ht) ?_
    simp only [hq]
    exact .throw
  case depth s c hs hq hd =>
    have ⟨path, bytes, hp, hc, hr, ht⟩ := hs
    refine ⟨.depthOutOfRange c.compiler.maxDepth, fun m hm => does_found hp ?_⟩
    simp only [hm, hc, if_pos]
    refine .quiet_bind (does_read (hm ▸ hr)) <| .quiet_bind (does_decode ht) ?_
    simp only [hq]
    refine .quiet_bind (.log _) ?_
    rw [if_neg (by grind [Config.acceptsDepth, Config.depthLimit])]
    exact .throw

-- The text which a query is given as: the argument, or what stands on the input.
def given? (query : Option String) (input : ByteArray) : Option String :=
  if query = none ∨ query = some "-" then String.fromUTF8? input else query

theorem does_queryText (h : given? query m.input = some s) :
    Does (queryText query) m (.ok s) "" m := by
  have hi (h : String.fromUTF8? m.input = some s) :
      Does (queryText.input : CommandM (StateM Machine) String) m (.ok s) "" m :=
    .quiet_bind (.host rfl) (does_decode h)
  unfold queryText
  split
  case h_1 text =>
    split
    case isTrue ht => exact hi (by simpa [given?, ht] using h)
    case isFalse ht =>
      have h : text = s := by simpa [given?, ht] using h
      exact h ▸ .pure
  case h_2 => exact hi (by simpa [given?] using h)

theorem does_queryText_error (h : given? query m.input = none) :
    Does (queryText query) m (.error (.input .notText)) "" m := by
  have hi (h : String.fromUTF8? m.input = none) :
      Does (queryText.input : CommandM (StateM Machine) String) m (.error (.input .notText)) "" m :=
    .quiet_bind (.host rfl) (does_decode_error h)
  unfold queryText
  split
  case h_1 text =>
    split
    case isTrue ht => exact hi (by simpa [given?, ht] using h)
    case isFalse ht => simp [given?, ht] at h
  case h_2 => exact hi (by simpa [given?] using h)

theorem does_compileQuery (h : compile options s = .ok d) :
    Does (compileQuery options s) m (.ok d) "" m := by
  have h : (compileNoting options s).1 = .ok d := h
  refine .quiet_bind (.log _) ?_
  simp only [h]
  exact .pure

theorem does_compileQuery_error (h : compile options s = .error e) :
    Does (compileQuery options s) m (.error (.query e)) "" m := by
  have h : (compileNoting options s).1 = .error e := h
  refine .quiet_bind (.log _) ?_
  simp only [h]
  exact .throw

theorem reads_configPath : Reads (configPath env : CommandM (StateM Machine) String) := by
  unfold configPath
  split
  · exact .pure
  · exact .throw

theorem reads_contains {path : Path} :
    Reads (host (Host.contains path) : CommandM (StateM Machine) Bool) :=
  fun _ => ⟨_, _, does_contains⟩

theorem reads_loadConfig [Library] : Reads (loadConfig env) := by
  intro m
  cases Config.broken_or_inEffect env m.files
  case inl h =>
    have ⟨_, h⟩ := does_loadConfig_error h
    exact ⟨_, _, h m rfl⟩
  case inr h =>
    have ⟨_, h⟩ := h
    exact ⟨_, _, does_loadConfig h⟩

theorem reads_queryText : Reads (queryText query : CommandM (StateM Machine) String) := by
  intro m
  cases h : given? query m.input
  case none => exact ⟨_, _, does_queryText_error h⟩
  case some => exact ⟨_, _, does_queryText h⟩

theorem reads_compileQuery :
    Reads (compileQuery options s : CommandM (StateM Machine) Document) := by
  intro m
  cases h : compile options s
  case error => exact ⟨_, _, does_compileQuery_error h⟩
  case ok => exact ⟨_, _, does_compileQuery h⟩

theorem reads_runShow [Library] : Reads (runShow ctx env : CommandM (StateM Machine) Unit) := by
  refine .bind reads_loadConfig fun c => .bind reads_configPath fun path => ?_
  split
  case isTrue => exact .pure
  case isFalse =>
    refine .bind (.print _) fun _ => .bind (.print _) fun _ => .bind reads_contains fun found => ?_
    refine .bind (.print _) fun _ => .bind (.print _) fun _ => ?_
    split
    case isTrue => exact .pure
    case isFalse => exact .print _

-- Nothing but the initialisation of the configuration changes the machine.
theorem reads_execute [Library] (flags : Flags) (env : Environment) {command : Command}
    (h : ∀ force, command ≠ .initConfig force) :
    Reads (execute flags env command : CommandM (StateM Machine) Unit) := by
  cases command
  case compile query depth =>
    exact .bind reads_loadConfig fun c => .bind reads_queryText fun s => .bind (.log _) fun _ =>
      .bind (.log _) fun _ => .bind reads_compileQuery fun d => .print _
  case check query =>
    refine .bind reads_loadConfig fun c => .bind reads_queryText fun s =>
      .bind reads_compileQuery fun d => ?_
    split
    case isTrue => exact .pure
    case isFalse => exact .print _
  case showConfig => exact .bind reads_loadConfig fun c => reads_runShow
  case configPath => exact .bind reads_configPath fun path => .print _
  case initConfig force => exact absurd rfl (h force)
  case completions => exact .write _

-- A run whose arguments are accepted reports what its command does.
theorem run_eq [Library] {args : List String} {command : Command} {r : Except Failure Unit} {m' : Machine}
    (h : Invocation.ofArguments args = .run flags command)
    (hd : Does (execute flags env command) m r s m') :
    ∃ log, (run env args : StateM Machine Report).run m =
      (report flags env (r, ⟨s, log⟩), m') := by
  have ⟨log, hd⟩ := hd .empty
  rw [show Output.empty.text ++ s = s from String.empty_append] at hd
  refine ⟨log, ?_⟩
  simp only [run, h, StateT.run_bind, hd]
  rfl

end Run

end SearchQuery
