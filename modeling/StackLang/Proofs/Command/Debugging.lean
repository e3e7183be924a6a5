import StackLang.Proofs.Command.Sources
import StackLang.Proofs.Interpreter.Ending
import StackLang.Proofs.Session.Lockstep
import StackLang.Proofs.Tree.Outline

/-! Debugging leaves the program alone: a command that shows more of what it does writes the same
output and ends with the same code, unless a tree cannot be shown, which takes the place of running
it. -/
namespace StackLang

namespace Output

abbrev OnFirst : Output → Output → Prop := PairedOn [0] Console.SameFirst

theorem OnFirst.symm {o p : Output} (on : OnFirst o p) : OnFirst p o :=
  ⟨on.paired.leaves.trans on.leaves, on.paired.leaves.symm, on.paired.tally.symm,
    on.paired.console.symm⟩

theorem steady_onFirst : Steady OnFirst := steady_pairedOn Console.steadyOn_sameFirst

theorem flushes_onFirst : Flushes OnFirst := by
  refine flushes_pairedOn Console.steadyOn_sameFirst fun related i leaf => ?_
  cases List.mem_singleton.1 leaf
  exact Console.flush_first related

end Output

namespace Interpreter

abbrev Same : Interpreter → Interpreter → Prop := Above Output.OnFirst []

theorem Same.symm {s t : Interpreter} (same : Same s t) : Same t s := by
  obtain ⟨⟨stack, out⟩, loops, words, depth, limit⟩ := same
  rw [List.append_nil] at stack
  exact ⟨⟨by rw [stack, List.append_nil], out.symm⟩, loops.symm, words.symm, depth.symm, limit.symm⟩

end Interpreter

namespace Command

/-- How the command is set up, what it can read, and that it logs aside. -/
structure IsSetUp (settings : Settings) (files : Files) (stdin : Except Failure Text)
    (c : Command) : Prop where
  settings : c.settings = settings
  files : c.files = files
  stdin : c.stdin = stdin
  aside : c.log.device ≠ some 0

/-- The commands are set up by `a` and by `b`, can read the same, and differ in nothing but what
they log and dump. -/
structure Alike (a b : Settings) (files : Files) (stdin : Except Failure Text)
    (c d : Command) : Prop where
  here : c.IsSetUp a files stdin
  there : d.IsSetUp b files stdin
  code : d.log.exitCode = c.log.exitCode
  session : Interpreter.Same c.session d.session

namespace Alike

variable {a b : Settings} {files : Files} {stdin : Except Failure Text} {c d : Command}

theorem symm (alike : Alike a b files stdin c d) : Alike b a files stdin d c :=
  ⟨alike.there, alike.here, alike.code.symm, alike.session.symm⟩

section

variable (alike : Alike a b files stdin c d)

include alike

theorem accepts : c.out.console.Accepts :=
  alike.session.bench.out.paired.console.here

/-- Logging is all that a command does here, and it ends with the same code. -/
theorem logging {code : Nat} {act act' : Logger → Console → Logger × Console}
    (first : Logger.Kept c.log c.out.console code (act c.log c.out.console))
    (second : Logger.Kept d.log d.out.console code (act' d.log d.out.console)) :
    Alike a b files stdin (c.logging act) (d.logging act') := by
  obtain ⟨here, there, -, session⟩ := alike
  obtain ⟨⟨stack, leaves, same, tally, console⟩, loops, words, depth, limit⟩ := session
  have consoles := (first.console.symm.trans console).trans second.console
  refine ⟨?_, ?_, second.code.trans first.code.symm, ?_⟩
  · exact ⟨here.settings, here.files, here.stdin, first.device ▸ here.aside⟩
  · exact ⟨there.settings, there.files, there.stdin, second.device ▸ there.aside⟩
  · exact ⟨⟨stack, leaves, same, tally, consoles⟩, loops, words, depth, limit⟩

theorem withConsole {console : Console} (same : Console.SameFirst d.out.console console) :
    Alike a b files stdin c (d.withConsole console) := by
  obtain ⟨here, there, code, session⟩ := alike
  obtain ⟨⟨stack, leaves, listed, tally, first⟩, loops, words, depth, limit⟩ := session
  exact ⟨here, ⟨there.settings, there.files, there.stdin, there.aside⟩, code,
    ⟨⟨stack, leaves, listed, tally, first.trans same⟩, loops, words, depth, limit⟩⟩

theorem log (level : Text) (m : Message) :
    Alike a b files stdin c (d.logging fun l console => l.log console level m) := by
  obtain ⟨settings, files, stdin, aside⟩ := alike.there
  have kept := Logger.log_kept aside alike.symm.accepts level m
  exact ⟨alike.here, ⟨settings, files, stdin, kept.device ▸ aside⟩, kept.code.trans alike.code,
    (alike.withConsole kept.console).session⟩

theorem errorIf (e : Option WriteError) :
    Alike a b files stdin (c.errorIf e) (d.errorIf e) := by
  let failure : Option Failure := e.map fun e => .cause e.cause
  have first := Logger.errorIf_kept alike.here.aside alike.accepts failure
  have second := Logger.errorIf_kept alike.there.aside alike.symm.accepts failure
  rw [alike.code] at second
  exact alike.logging first second

theorem report (f : Failure) :
    Alike a b files stdin (c.logging fun l console => l.report console c.settings.trace f)
      (d.logging fun l console => l.report console d.settings.trace f) :=
  alike.logging (Logger.report_kept alike.here.aside alike.accepts _ f)
    (Logger.report_kept alike.there.aside alike.symm.accepts _ f)

theorem dumping {ε : Type} {act : Output → Option ε × Output} {e : Option ε}
    (aside : ∀ {o : Output}, o.leaves = [1] → o.console.Accepts →
      (act o).1 = e ∧ Output.Aside o (act o).2) :
    (d.dumping act).1 = e ∧ Alike a b files stdin c (d.dumping act).2 := by
  have there : Console.Accepts { d.out with leaves := [1], tally := none }.console :=
    alike.symm.accepts
  obtain ⟨result, -, console⟩ := aside rfl there
  exact ⟨result, alike.withConsole console⟩

theorem heading (title : String) (name : Text) :
    Alike a b files stdin c (d.heading title name) := alike.log [] _

theorem dumpTokens (name : Text) (ts : List Token) :
    (d.dumpTokens name ts).1 = none ∧ Alike a b files stdin c (d.dumpTokens name ts).2 := by
  unfold Command.dumpTokens
  by_cases on : d.settings.dumpTokens = true
  · rw [if_pos on]
    obtain ⟨fine, dumped⟩ :=
      (alike.heading "Tokens" name).dumping fun only accepts => writeTokens_aside ts only accepts
    exact ⟨congrArg (Option.map fun e => Failure.cause e.cause) fine, dumped⟩
  · rw [if_neg on]
    exact ⟨rfl, alike⟩

theorem dumpTree (name : Text) (n : Node) :
    (d.dumpTree name n).1 = (if b.dumpTree then (treeFault n).map OutlineError.failure else none) ∧
      Alike a b files stdin c (d.dumpTree name n).2 := by
  unfold Command.dumpTree
  rw [alike.there.settings]
  by_cases on : b.dumpTree = true
  · rw [if_pos on, if_pos on]
    obtain ⟨fault, dumped⟩ :=
      (alike.heading "AST" name).dumping fun only accepts => writeTree_aside n only accepts
    exact ⟨congrArg (Option.map OutlineError.failure) fault, dumped⟩
  · rw [if_neg on, if_neg on]
    exact ⟨rfl, alike⟩

theorem logTrace (seen : Nat) : Alike a b files stdin c (d.logTrace seen) := by
  have each (lines : List Text) {d : Command} (alike : Alike a b files stdin c d) :
      Alike a b files stdin c (lines.foldl (fun c line => c.logging fun l console =>
        l.log console (utf8 "TRACE") (Message.tagged ⟨line, []⟩ c.runName)) d) := by
    induction lines generalizing d with
    | nil => exact alike
    | cons line lines ih => exact ih (alike.log _ _)
  exact each _ alike

theorem dumpState : Alike a b files stdin c d.dumpState := by
  rw [dumpState_eq]
  by_cases on : d.settings.dumpState = true
  · rw [if_pos on]
    obtain ⟨fine, dumped⟩ :=
      alike.dumping fun only accepts => writeState_aside d.session only accepts
    rw [fine]
    exact dumped
  · rw [if_neg on]
    exact alike

def rest (stdin : Except Failure Text) (name : Text) : Except Failure Text :=
  if name = utf8 "-" then .ok [] else stdin

theorem open? (name : Text) :
    (d.open? name).1 = (c.open? name).1 ∧
      Alike a b files (rest stdin name) (c.open? name).2 (d.open? name).2 := by
  obtain ⟨⟨here, rfl, rfl, aside⟩, ⟨there, files, stdin, aside'⟩, code, session⟩ := alike
  unfold Command.open? rest
  by_cases dash : name = utf8 "-"
  · rw [if_pos dash, if_pos dash, if_pos dash, stdin]
    exact ⟨rfl, ⟨here, rfl, rfl, aside⟩, ⟨there, files, rfl, aside'⟩, code, session⟩
  · rw [if_neg dash, if_neg dash, if_neg dash, files]
    exact ⟨rfl, ⟨here, rfl, rfl, aside⟩, ⟨there, files, stdin, aside'⟩, code, session⟩

theorem onward {s t : Interpreter} (session : Interpreter.Same s t) :
    Alike a b files stdin { c with session := s } { d with session := t } := by
  obtain ⟨⟨here, files, stdin, aside⟩, ⟨there, files', stdin', aside'⟩, code, -⟩ := alike
  exact ⟨⟨here, files, stdin, aside⟩, ⟨there, files', stdin', aside'⟩, code, session⟩

theorem runTree (n : Node) :
    (d.runTree n).1 = (c.runTree n).1 ∧ Alike a b files stdin (c.runTree n).2 (d.runTree n).2 := by
  obtain ⟨failure, session⟩ :=
    alike.session.runTree Output.steady_onFirst Output.flushes_onFirst n
  -- each command logs what its own run has traced
  exact ⟨failure, (((alike.onward session).logTrace _).symm.logTrace _).symm⟩

theorem endLine : Alike a b files stdin c.endLine d.endLine := by
  have out : Output.OnFirst c.out d.out := alike.session.bench.out
  unfold Command.endLine
  rw [out.paired.tally]
  by_cases ends : c.out.tally.all Tally.endsLine = true
  · rw [if_pos ends, if_pos ends]
    exact alike
  · rw [if_neg ends, if_neg ends]
    obtain ⟨answer, written⟩ := Output.steady_onFirst.write out [Text.newline]
    generalize c.out.write [Text.newline] = here at answer written ⊢
    generalize d.out.write [Text.newline] = there at answer written ⊢
    obtain ⟨w, o⟩ := here
    obtain ⟨_, p⟩ := there
    cases answer
    obtain ⟨⟨stack, -⟩, loops, words, depth, limit⟩ := alike.session
    have session : Interpreter.Same { c.session with machine.bench.out := o }
        { d.session with machine.bench.out := p } := ⟨⟨stack, written⟩, loops, words, depth, limit⟩
    exact (alike.onward session).errorIf w.error

theorem flush : Alike a b files stdin c.flush d.flush := by
  obtain ⟨error, session⟩ := alike.session.flushed Output.flushes_onFirst
  unfold Command.flush
  generalize c.session.flush = here at error session ⊢
  generalize d.session.flush = there at error session ⊢
  obtain ⟨e, s⟩ := here
  obtain ⟨_, t⟩ := there
  cases error
  exact (alike.onward session).errorIf e

end

end Alike

/-- The strings in the program are valid UTF-8, if it is one. -/
def Legible (src : Text) : Prop :=
  ∀ ts nodes, lex src = .ok ts → parse ts = .ok nodes → (Node.block nodes).Legible

theorem legible_nil : Legible [] := by
  intro ts nodes lexed parsed
  have empty : lex [] = .ok [{ kind := .eof, pos := ⟨1, 1⟩ }] := by decide +kernel
  rw [empty] at lexed
  cases lexed
  cases parsed
  exact fun t mem => absurd mem List.not_mem_nil

theorem treeFault_legible {src : Text} {ts : List Token} {nodes : List Node}
    (legible : Legible src) (lexed : lex src = .ok ts) (parsed : parse ts = .ok nodes) :
    treeFault (.block nodes) = none := by
  obtain ⟨doc, outlined, whole⟩ := Node.block_outline (parse_printable lexed parsed)
    (legible ts nodes lexed parsed)
  unfold treeFault
  rw [outlined]
  exact if_pos whole

namespace Alike

variable {a b : Settings} {files : Files} {stdin : Except Failure Text} {c d : Command}

theorem runSource (alike : Alike a b files stdin c d) (name : Text)
    (legible : a.dumpTree = b.dumpTree ∨ ∀ src, (c.open? name).1 = .ok src → Legible src.text) :
    (d.runSource name).1 = (c.runSource name).1 ∧
      Alike a b files (rest stdin name) (c.runSource name).2 (d.runSource name).2 := by
  obtain ⟨same, opened⟩ := alike.open? name
  unfold Command.runSource
  generalize c.open? name = here at legible same opened ⊢
  generalize d.open? name = there at same opened ⊢
  obtain ⟨result, c⟩ := here
  obtain ⟨_, d⟩ := there
  cases same
  cases result with
  | error f => exact ⟨rfl, opened⟩
  | ok src =>
    simp only
    cases lexed : lex src.text with
    | error e => exact ⟨rfl, opened⟩
    | ok ts =>
      obtain ⟨fine, shown⟩ := opened.dumpTokens src.name ts
      obtain ⟨fine', shown⟩ := shown.symm.dumpTokens src.name ts
      simp only
      generalize c.dumpTokens src.name ts = here at fine' shown ⊢
      generalize d.dumpTokens src.name ts = there at fine shown ⊢
      obtain ⟨_, c⟩ := here
      obtain ⟨_, d⟩ := there
      cases fine
      cases fine'
      simp only
      cases parsed : parse ts with
      | error e => exact ⟨rfl, shown.symm⟩
      | ok nodes =>
        -- up to here nothing could fail in one command alone, but a tree may be shown in one only
        obtain ⟨fault, drawn⟩ := shown.dumpTree src.name (.block nodes)
        obtain ⟨fault', drawn⟩ := drawn.symm.dumpTree src.name (.block nodes)
        have fate : (d.dumpTree src.name (.block nodes)).1 =
            (c.dumpTree src.name (.block nodes)).1 := by
          rw [fault, fault']
          rcases legible with same | legible
          · rw [same]
          · rw [treeFault_legible (legible src rfl) lexed parsed]
            simp
        simp only
        generalize c.dumpTree src.name (.block nodes) = here at fate drawn ⊢
        generalize d.dumpTree src.name (.block nodes) = there at fate drawn ⊢
        obtain ⟨f, c⟩ := here
        obtain ⟨_, d⟩ := there
        cases fate
        cases f with
        | some f => exact ⟨rfl, drawn⟩
        | none =>
          obtain ⟨failure, ran⟩ := drawn.runTree (.block nodes)
          exact ⟨congrArg (Option.map src.locate) failure, ran⟩

end Alike

/-- A text that a command can read under one of the names. -/
def Offered (files : Files) (stdin : Except Failure Text) (names : List Text) (text : Text) :
    Prop :=
  ∃ name ∈ names, if name = utf8 "-" then stdin = .ok text else files.open name = .ok text

namespace Alike

variable {a b : Settings} {files : Files} {stdin : Except Failure Text} {c d : Command}

theorem offered_open? (alike : Alike a b files stdin c d) {name : Text} {src : Source}
    (opened : (c.open? name).1 = .ok src) (names : List Text) :
    Offered files stdin (name :: names) src.text := by
  obtain ⟨-, rfl, rfl, -⟩ := alike.here
  refine ⟨name, List.mem_cons_self, ?_⟩
  unfold Command.open? at opened
  by_cases dash : name = utf8 "-"
  · rw [if_pos dash] at opened ⊢
    cases input : c.stdin with
    | error f =>
      rw [input] at opened
      cases opened
    | ok text =>
      rw [input] at opened
      cases opened
      rfl
  · rw [if_neg dash] at opened ⊢
    cases found : c.files.open name with
    | error f =>
      rw [found] at opened
      cases opened
    | ok text =>
      rw [found] at opened
      cases opened
      rfl

theorem offered_rest {name : Text} {names : List Text} {text : Text}
    (offered : Offered files (rest stdin name) names text) :
    text = [] ∨ Offered files stdin (name :: names) text := by
  obtain ⟨other, mem, held⟩ := offered
  unfold rest at held
  by_cases first : name = utf8 "-"
  · by_cases dash : other = utf8 "-"
    · rw [if_pos dash, if_pos first] at held
      exact .inl (Except.ok.inj held).symm
    · rw [if_neg dash] at held
      exact .inr ⟨other, .tail _ mem, by rwa [if_neg dash]⟩
  · rw [if_neg first] at held
    exact .inr ⟨other, .tail _ mem, held⟩

theorem runSources (names : List Text) (alike : Alike a b files stdin c d)
    (legible : a.dumpTree = b.dumpTree ∨ ∀ text, Offered files stdin names text → Legible text) :
    ∃ left, Alike a b files left (c.runSources names) (d.runSources names) := by
  induction names generalizing stdin c d with
  | nil => exact ⟨stdin, alike⟩
  | cons name names ih =>
    obtain ⟨same, ran⟩ := alike.runSource name <| legible.imp id fun legible src opened =>
      legible src.text (alike.offered_open? opened names)
    unfold Command.runSources
    generalize c.runSource name = here at same ran ⊢
    generalize d.runSource name = there at same ran ⊢
    obtain ⟨f, c⟩ := here
    obtain ⟨_, d⟩ := there
    cases same
    cases f with
    | some f => exact ⟨_, ran.report f⟩
    | none =>
      refine ih ran <| legible.imp id fun legible text offered => ?_
      rcases offered_rest offered with rfl | offered
      · exact legible_nil
      · exact legible text offered

end Alike

end Command

/-- Let a command log and dump to devices that take everything. Then it writes the same output and
ends with the same code whatever it is asked to show on the way, if the trees of its sources can be
dumped or nothing changes about that. -/
theorem debugging_changes_nothing (w : World) (a b : Settings) (log : Logger) (console : Console)
    (names : List Text) (newline : Bool) (depth : a.maxCallDepth = b.maxCallDepth)
    (aside : log.device ≠ some 0) (accepts : console.Accepts)
    (legible : a.dumpTree = b.dumpTree ∨
      ∀ text, Command.Offered w.files w.stdin (if names = [] then [utf8 "-"] else names) text →
        Command.Legible text) :
    let outcome (settings : Settings) := (Command.start w settings log console).run names newline
    (outcome a).stdout = (outcome b).stdout ∧ (outcome a).code = (outcome b).code := by
  intro outcome
  have start : Command.Alike a b w.files w.stdin (.start w a log console)
      (.start w b log console) :=
    ⟨⟨rfl, rfl, rfl, aside⟩, ⟨rfl, rfl, rfl, aside⟩, rfl,
      ⟨⟨rfl, rfl, rfl, rfl, .refl accepts⟩, rfl, rfl, rfl, depth.symm⟩⟩
  obtain ⟨left, ran⟩ := start.runSources _ legible
  have dumped := ran.dumpState.symm.dumpState.symm
  cases newline with
  | true =>
    have ended := dumped.endLine.flush
    exact ⟨ended.session.bench.out.paired.console.data.symm, ended.code.symm⟩
  | false =>
    have ended := dumped.flush
    exact ⟨ended.session.bench.out.paired.console.data.symm, ended.code.symm⟩

def accented : World := { files := [(utf8 "p.st", utf8 "\"é\" PUTS")] }

/-- A source and a missing one, with nothing shown and with everything. -/
theorem debugging_changes_nothing_accented :
    let all : Settings := { trace := true, dumpTokens := true, dumpTree := true, dumpState := true }
    let outcome (settings : Settings) := (Command.start accented settings { device := some 1 }
      accented.console).run [utf8 "p.st", utf8 "q.st"] true
    (outcome {}).stdout = (outcome all).stdout ∧ (outcome {}).code = (outcome all).code := by
  intro all outcome
  have accepts : accented.console.Accepts := by
    intro i _ r mem
    match i with
    | 0 | 1 | i + 2 => cases mem
  have lexed : lex (utf8 "\"é\" PUTS") = .ok [
      { kind := .string, pos := ⟨1, 1⟩, text := utf8 "é" },
      { kind := .op .puts, pos := ⟨1, 5⟩ }, { kind := .eof, pos := ⟨1, 9⟩ }] := by decide +kernel
  have legible : Command.Legible (utf8 "\"é\" PUTS") := by
    intro ts nodes read parsed
    rw [lexed] at read
    cases read
    cases parsed
    unfold Node.Legible
    decide +kernel
  have offered (text : Text) (offered : Command.Offered accented.files accented.stdin
      [utf8 "p.st", utf8 "q.st"] text) : Command.Legible text := by
    obtain ⟨name, mem, held⟩ := offered
    rcases List.mem_cons.1 mem with rfl | mem
    · cases held
      exact legible
    · cases List.mem_singleton.1 mem
      cases held
  exact debugging_changes_nothing accented {} all { device := some 1 } accented.console
    [utf8 "p.st", utf8 "q.st"] true rfl (by decide) accepts (.inr offered)

/-- Puts a byte that is not UTF-8 on the stack as a string, and writes a number. -/
def stray : World := { files := [(utf8 "p.st", utf8 "\"" ++ [0xFF] ++ utf8 "\" 1 .")] }

/-- The tree of a source cannot be dumped, and so it is not run. -/
theorem dump_replaces_program :
    let outcome (settings : Settings) := (Command.start stray settings { device := some 1 }
      stray.console).run [utf8 "p.st"] false
    ((outcome {}).code = 0 ∧ (outcome {}).stdout = utf8 "1") ∧
      (outcome { dumpTree := true }).code = 1 ∧ (outcome { dumpTree := true }).stdout = [] := by
  intro outcome
  refine ⟨?_, by decide +kernel⟩
  let src : Source := ⟨utf8 "p.st", utf8 "\"" ++ [0xFF] ++ utf8 "\" 1 ."⟩
  have lexed : lex src.text = .ok [{ kind := .string, pos := ⟨1, 1⟩, text := [0xFF] },
      { kind := .number, pos := ⟨1, 5⟩, num := 1 }, { kind := .op .emit, pos := ⟨1, 7⟩ },
      { kind := .eof, pos := ⟨1, 8⟩ }] := by decide +kernel
  let tree : Node := .block [.string [0xFF], .number 1, .op (.op .emit)]
  let start := Command.start stray {} { device := some 1 } stray.console
  let written := (start.out.write (utf8 "1")).2
  have out : (Interpreter.runWithin 7 [.rest [tree]] start.session).map
      (fun result => (result.1, result.2.machine.bench.out)) =
        some (none, written) := by decide +kernel
  obtain ⟨⟨stop, ⟨⟨⟨stack, o⟩, loops⟩, words, depth, limit, tracing⟩⟩, ended, result⟩ :=
    Option.map_eq_some_iff.1 out
  obtain ⟨rfl, rfl⟩ : stop = none ∧ o = written := Prod.mk.inj result
  let session : Interpreter := ⟨⟨⟨stack, written⟩, loops⟩, words, depth, limit, tracing⟩
  have ran : start.session.runNode tree = (none, session) := by
    rw [Interpreter.runNode, Interpreter.run_of_runWithin ended]
  have ranTree : start.runTree tree = (none, { start with session }) := by
    rw [Command.runTree, Interpreter.runTree, ran]
    rfl
  have ranSource : start.runSource (utf8 "p.st") = (none, { start with session }) := by
    have loaded : start.load (utf8 "p.st") = (.ok (src, tree), start) :=
      Command.load_plain rfl lexed rfl rfl rfl
    rw [Command.runSource_eq, loaded]
    exact congrArg (fun result => (result.1.map src.locate, result.2)) ranTree
  have ranSources : start.runSources [utf8 "p.st"] = { start with session } := by
    rw [Command.runSources, ranSource]
    rfl
  have whole : outcome {} = ⟨0, written.console⟩ := by
    change start.run [utf8 "p.st"] false = _
    rw [Command.run, if_neg (List.cons_ne_nil _ _), ranSources]
    rfl
  have one : written.console.dataOf 0 = utf8 "1" := by decide +kernel
  rw [whole]
  exact ⟨rfl, one⟩

end StackLang
