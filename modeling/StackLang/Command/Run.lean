import StackLang.Command.Flags
import StackLang.Dump
import StackLang.Log

/-! A command runs named sources in one session and reports the first failure. What the programs
write goes to the first device; the log and all dumps go to the second. -/
namespace StackLang

/-- Sixteen bytes as the name of a run; the bits for version and variant are fixed. -/
def runName (bytes : List UInt8) : Text :=
  let marked := (bytes.modify 6 fun b => b &&& 0x0F ||| 0x40).modify 8 fun b => b &&& 0x3F ||| 0x80
  let hex (bs : List UInt8) : Text := bs.flatMap fun b => Text.hex 2 b.toNat
  Text.join (utf8 "-") [hex (marked.take 4), hex ((marked.drop 4).take 2),
    hex ((marked.drop 6).take 2), hex ((marked.drop 8).take 2), hex (marked.drop 10)]

/-- What a command finds when it starts: files, all of standard input or why it cannot be read, the
two devices, whether the first is a terminal, and bytes for the name of its run. -/
structure World where
  files : Files := []
  stdin : Except Failure Text := .ok []
  stdout : Device := {}
  stderr : Device := {}
  terminal : Bool := false
  entropy : List UInt8 := List.replicate 16 0
  deriving Repr

/-- How a command ended: its exit code, and all that went to the devices. -/
structure Outcome where
  code : Nat
  console : Console
  deriving Repr

def Outcome.stdout (o : Outcome) : Text := o.console.dataOf 0
def Outcome.stderr (o : Outcome) : Text := o.console.dataOf 1

def World.console (w : World) : Console := { devices := [w.stdout, w.stderr] }

structure Command where
  settings : Settings
  files : Files
  stdin : Except Failure Text
  runName : Text
  log : Logger
  session : Interpreter
  deriving Repr

namespace Command

def start (w : World) (settings : Settings) (log : Logger) (console : Console) : Command where
  settings := settings
  files := w.files
  stdin := w.stdin
  runName := StackLang.runName w.entropy
  log := log
  session := .new { tally := some {}, console } [.output 0, .maxCallDepth settings.maxCallDepth,
    .tracing (if settings.trace then some 0 else none)]

def out (c : Command) : Output := c.session.machine.bench.out

def withConsole (c : Command) (console : Console) : Command :=
  { c with session.machine.bench.out.console := console }

def logging (c : Command) (act : Logger → Console → Logger × Console) : Command :=
  let (log, console) := act c.log c.out.console
  { c with log }.withConsole console

def dumping {ε : Type} (c : Command) (act : Output → Option ε × Output) : Option ε × Command :=
  let (e, out) := act { leaves := [1], console := c.out.console }
  (e, c.withConsole out.console)

/-- The source of a name. Who asks for standard input takes all that is left of it. -/
def open? (c : Command) (name : Text) : Except Failure Source × Command :=
  if name = utf8 "-" then (c.stdin.map (⟨utf8 "<stdin>", ·⟩), { c with stdin := .ok [] })
  else ((c.files.open name).map (⟨name, ·⟩), c)

def heading (c : Command) (title : String) (name : Text) : Command :=
  c.logging fun l console => l.log console [] ⟨utf8 ("# " ++ title ++ " %v"), [.text name]⟩

def dumpTokens (c : Command) (name : Text) (ts : List Token) : Option Failure × Command :=
  if c.settings.dumpTokens then
    let (e, c) := (c.heading "Tokens" name).dumping (writeTokens · ts)
    (e.map fun e => .cause e.cause, c)
  else (none, c)

def dumpTree (c : Command) (name : Text) (n : Node) : Option Failure × Command :=
  if c.settings.dumpTree then
    let (e, c) := (c.heading "AST" name).dumping (writeTree · n)
    (e.map OutlineError.failure, c)
  else (none, c)

/-- Logs the lines that a run has traced, all but the first `seen` of them. -/
def logTrace (c : Command) (seen : Nat) : Command :=
  (c.out.console.traceLines.drop seen).foldl (fun c line => c.logging fun l console =>
    l.log console (utf8 "TRACE") (Message.tagged ⟨line, []⟩ c.runName)) c

def runTree (c : Command) (n : Node) : Option Failure × Command :=
  let seen := c.out.console.traceLines.length
  let (f, session) := c.session.runTree n
  (f, { c with session }.logTrace seen)

/-- Reads, dumps and runs a source. What is wrong with the program is placed in its text. -/
def runSource (c : Command) (name : Text) : Option Failure × Command :=
  match c.open? name with
  | (.error f, c) => (some f, c)
  | (.ok src, c) =>
    match lex src.text with
    | .error e => (some (src.locate (.ofLex e)), c)
    | .ok ts =>
      match c.dumpTokens src.name ts with
      | (some f, c) => (some f, c)
      | (none, c) =>
        match parse ts with
        | .error e => (some (src.locate (.ofParse e)), c)
        | .ok nodes =>
          match c.dumpTree src.name (.block nodes) with
          | (some f, c) => (some f, c)
          | (none, c) =>
            let (f, c) := c.runTree (.block nodes)
            (f.map src.locate, c)

/-- Runs sources in order up to the first failure, which is reported. -/
def runSources (c : Command) : List Text → Command
  | [] => c
  | name :: rest =>
    match c.runSource name with
    | (none, c) => c.runSources rest
    | (some f, c) => c.logging fun l console => l.report console c.settings.trace f

def errorIf (c : Command) (e : Option WriteError) : Command :=
  c.logging fun l console => l.errorIf console (e.map fun e => .cause e.cause)

def dumpState (c : Command) : Command :=
  if c.settings.dumpState then
    let (e, c) := c.dumping fun out => match c.session.dump? with
      | some t => let (w, out) := out.write t; (w.error, out)
      | none => (none, out)
    c.errorIf e
  else c

def endLine (c : Command) : Command :=
  if c.out.tally.all Tally.endsLine then c
  else
    let (w, out) := c.out.write [Text.newline]
    { c with session.machine.bench.out := out }.errorIf w.error

def flush (c : Command) : Command :=
  let (e, session) := c.session.flush
  { c with session }.errorIf e

/-- Runs all sources and finishes the output; without a name the source is standard input. -/
def run (c : Command) (names : List Text) (newline : Bool) : Outcome :=
  let c := (c.runSources (if names = [] then [utf8 "-"] else names)).dumpState
  let c := (if newline then c.endLine else c).flush
  ⟨c.log.exitCode, c.out.console⟩

end Command

def World.run (w : World) (log : Logger) (name : Text) (args : List Text) : Outcome :=
  let call := parseArgs w.files name args
  let console := if call.stderr = [] then w.console else (w.console.write 1 call.stderr).2
  if call.isHelp then ⟨0, console⟩
  else match call.failure with
    | some f => ⟨2, (log.errorIf console (some f)).2⟩
    | none => (Command.start w call.settings log console).run call.names
        (call.settings.endsOutput w.terminal)

end StackLang
