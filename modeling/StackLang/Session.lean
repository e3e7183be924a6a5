import StackLang.Interpreter.Run

/-! A session: one interpreter that keeps its stack and its words from one program to the next. -/
namespace StackLang

/-- How a session is set up. Settings apply from left to right; a group stands for its members. -/
inductive Setting where
  | output (device : Nat)
  | tee (device : Nat)
  | maxCallDepth (depth : Int)
  | tracing (logger : Option Nat)
  | group (settings : List Setting)
  | none
  deriving Repr

namespace Setting

mutual

def flat : Setting → List Setting
  | group settings => flats settings
  | none => []
  | s => [s]

def flats : List Setting → List Setting
  | [] => []
  | s :: rest => s.flat ++ flats rest

end

mutual

/-- An output replaces those before it, which are flushed; a tee comes after them. -/
def apply (s : Interpreter) : Setting → Interpreter
  | output device =>
    let (_, out) := s.machine.bench.out.flush
    { s with machine.bench.out := { out with leaves := [device] } }
  | tee device =>
    let out := s.machine.bench.out
    { s with machine.bench.out := { out with leaves := out.leaves ++ [device] } }
  | maxCallDepth depth => { s with maxCallDepth := depth }
  | tracing logger => { s with tracing := logger }
  | group settings => applyAll s settings
  | none => s

def applyAll (s : Interpreter) : List Setting → Interpreter
  | [] => s
  | setting :: rest => applyAll (setting.apply s) rest

end

end Setting

namespace Interpreter

def new (out : Output) (settings : List Setting) : Interpreter :=
  Setting.applyAll { machine := { bench := { out } } } settings

/-- A hole is run: there is nothing there to go on with. -/
def brokenText : Text := utf8 "runtime error: invalid memory address or nil pointer dereference"

def brokenTrace : { t : Text // t ≠ [] } := ⟨utf8 "a hole in the program", by decide⟩

def ending : Option Stop → Ending
  | none => .returned none
  | some (.fault f) => .returned (some (.ofFault f))
  | some .broken => .brokeWith (.plain brokenText) brokenTrace

def flush (s : Interpreter) : Option WriteError × Interpreter :=
  let (e, out) := s.machine.bench.out.flush
  (e, { s with machine.bench.out := out })

/-- Runs a tree up to its first fault. The output is flushed however the run ends. -/
def runTree (s : Interpreter) (n : Node) : Option Failure × Interpreter :=
  let (stop, s) := s.runNode n
  let (e, s) := s.flush
  (((ending stop).isolate (utf8 "stacky")).or (e.map fun e => .cause e.cause), s)

def read (src : Text) : Except Failure Node :=
  match lex src with
  | .error e => .error (.ofLex e)
  | .ok tokens =>
    match parse tokens with
    | .error e => .error (.ofParse e)
    | .ok nodes => .ok (.block nodes)

def exec (s : Interpreter) (src : Text) : Option Failure × Interpreter :=
  match read src with
  | .error e => (some e, s.log (utf8 "halt error: " ++ e.message))
  | .ok n => s.runTree n

def push (s : Interpreter) (es : List Entity) : Interpreter :=
  { s with machine.bench.stack := es.reverseAux s.machine.bench.stack }

def popTop (s : Interpreter) : Option Entity × Interpreter :=
  match s.machine.bench.stack with
  | [] => (none, s)
  | e :: rest => (some e, { s with machine.bench.stack := rest })

end Interpreter

end StackLang
