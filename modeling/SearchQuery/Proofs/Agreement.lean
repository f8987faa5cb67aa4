import SearchQuery.Proofs.Commands
import SearchQuery.Proofs.RoundTrip

namespace SearchQuery

open CommandM Run

-- The command compiles the query, with `depth` as the maximal depth if it is given.
def Command.Compiles (query : Option String) (depth : Option Nat) : Command → Prop
  | .compile q d => q = query ∧ d = depth
  | .check q     => q = query ∧ depth = none
  | _            => False

-- What is printed if the query compiles.
def Command.output (ctx : Context) (d : Document) : Command → String
  | .compile .. => (if ctx.pretty then d.encode.pretty else d.encode.compact) ++ "\n"
  | .check _    => if ctx.quiet then "" else (if ctx.color then Style.green "ok" else "ok") ++ "\n"
  | _           => ""

-- What a run reports which has the query compiled. The configuration fails first, then the input,
-- and then the compiler.
structure Run.Answers [Library] (env : Environment) (flags : Flags) (m : Machine)
    (query : Option String) (depth : Option Nat) (report : Report) : Prop where
  config : Config.Broken env m.files → report.code = 5 ∧ report.stdout = ""
  input  : ∀ c, Config.InEffect env m.files c → given? query m.input = none →
    report.code = 3 ∧ report.stdout = ""
  error  : ∀ c s e, Config.InEffect env m.files c → given? query m.input = some s →
    compile ⟨depth.getD c.compiler.maxDepth⟩ s = .error e →
    report.code = 1 ∧ report.stdout = "" ∧
      ∃ rs, report.stderr =
        Library.log (logSettings flags) env rs ++ errorLine flags env (.query e)
  ok     : ∀ c s d, Config.InEffect env m.files c → given? query m.input = some s →
    compile ⟨depth.getD c.compiler.maxDepth⟩ s = .ok d → report.code = 0

variable {env : Environment} {flags : Flags} {c : Config} {m : Machine} {command : Command}
variable {query : Option String} {depth : Option Nat} {s : String} {d : Document} {e : ParseError}

namespace Run

variable [Library]

theorem does_execute_broken {e : ConfigError} (h : command.Compiles query depth)
    (hl : Does (loadConfig env) m (.error (.config e)) "" m) :
    Does (execute flags env command) m (.error (.config e)) "" m := by
  cases command
  case compile => exact .bind_error hl
  case check => exact .bind_error hl
  all_goals exact h.elim

theorem does_execute_input (h : command.Compiles query depth) (hc : Config.InEffect env m.files c)
    (hq : given? query m.input = none) :
    Does (execute flags env command) m (.error (.input .notText)) "" m := by
  have hl := does_loadConfig hc
  have hq := does_queryText_error hq
  cases command
  case compile => exact h.1 ▸ .quiet_bind hl (.bind_error hq)
  case check => exact h.1 ▸ .quiet_bind hl (.bind_error hq)
  all_goals exact h.elim

theorem does_execute_error (h : command.Compiles query depth) (hc : Config.InEffect env m.files c)
    (hq : given? query m.input = some s)
    (he : compile ⟨depth.getD c.compiler.maxDepth⟩ s = .error e) :
    Does (execute flags env command) m (.error (.query e)) "" m := by
  have hl := does_loadConfig hc
  have hq := does_queryText hq
  have he : Does (compileQuery _ s) m (.error (.query e)) "" m := does_compileQuery_error he
  cases command
  case compile =>
    have ⟨hq', hd⟩ := h
    subst hq' hd
    exact .quiet_bind hl <| .quiet_bind hq <| .quiet_bind (.log _) <| .quiet_bind (.log _) <|
      .bind_error he
  case check =>
    have ⟨hq', hd⟩ := h
    subst hq' hd
    exact .quiet_bind hl <| .quiet_bind hq <| .bind_error he
  all_goals exact h.elim

theorem does_execute_ok (h : command.Compiles query depth) (hc : Config.InEffect env m.files c)
    (hq : given? query m.input = some s) (hd : compile ⟨depth.getD c.compiler.maxDepth⟩ s = .ok d) :
    Does (execute flags env command) m (.ok ()) (command.output (context flags env c) d) m := by
  have hl := does_loadConfig hc
  have hq := does_queryText hq
  have hd : Does (compileQuery _ s) m (.ok d) "" m := does_compileQuery hd
  cases command
  case compile =>
    have ⟨hq', hd'⟩ := h
    subst hq' hd'
    exact .quiet_bind hl <| .quiet_bind hq <| .quiet_bind (.log _) <| .quiet_bind (.log _) <|
      .quiet_bind hd (.print _)
  case check =>
    have ⟨hq', hd'⟩ := h
    subst hq' hd'
    refine .quiet_bind hl <| .quiet_bind hq <| .quiet_bind hd ?_
    unfold Command.output
    split
    case isTrue => exact .pure
    case isFalse => exact .print _
  all_goals exact h.elim

-- How a run ends depends on nothing but the configuration and the text of the query, and not on
-- whether the query is only checked. What it prints may depend on this, and on the flags.
theorem exists_result (c : Config) (given : Option String) (depth : Option Nat) :
    ∃ r : Except Failure Unit, ∀ flags env (command : Command), ∃ text, ∀ m query,
      command.Compiles query depth → Config.InEffect env m.files c → given? query m.input = given →
      Does (execute flags env command) m r text m := by
  cases given
  case none => exact ⟨_, fun _ _ _ => ⟨_, fun _ _ => does_execute_input⟩⟩
  case some s =>
    cases hd : compile ⟨depth.getD c.compiler.maxDepth⟩ s
    case error => exact ⟨_, fun _ _ _ => ⟨_, fun _ _ h hc hq => does_execute_error h hc hq hd⟩⟩
    case ok => exact ⟨_, fun _ _ _ => ⟨_, fun _ _ h hc hq => does_execute_ok h hc hq hd⟩⟩

theorem answers {args : List String} (h : Invocation.ofArguments args = .run flags command)
    (hc : command.Compiles query depth) :
    Answers env flags m query depth ((run env args : StateM Machine Report).run m).1 where
  config hb := by
    have ⟨e, hl⟩ := does_loadConfig_error hb
    have ⟨log, hr⟩ := run_eq h (does_execute_broken hc (hl m rfl))
    rw [hr]
    exact ⟨rfl, rfl⟩
  input c hi hq := by
    have ⟨log, hr⟩ := run_eq h (does_execute_input hc hi hq)
    rw [hr]
    exact ⟨rfl, rfl⟩
  error c s e hi hq he := by
    have ⟨log, hr⟩ := run_eq h (does_execute_error hc hi hq he)
    rw [hr]
    exact ⟨rfl, rfl, _, rfl⟩
  ok c s d hi hq hd := by
    have ⟨log, hr⟩ := run_eq h (does_execute_ok hc hi hq hd)
    rw [hr]
    rfl

end Run

end SearchQuery
