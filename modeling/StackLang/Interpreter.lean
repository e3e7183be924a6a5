import StackLang.Machine
import StackLang.Scope

/-! Running a tree. The nodes still to be run wait in a list of frames, so that deep nesting of
calls needs no deep recursion. -/
namespace StackLang

/-- A machine with its words. `depth` counts the calls that are going on; the trace is given to the
logger in `tracing`, if there is one. -/
structure Interpreter where
  machine : Machine := {}
  words : Dictionary := []
  depth : Nat := 0
  maxCallDepth : Int := 0
  tracing : Option Nat := none
  deriving Repr

/-- What is still to be done: the rest of a body, the way out of a word, or another round of a
loop. -/
inductive Frame where
  | rest (nodes : List Node)
  | leave
  | again (body : List Node)
  deriving Repr

namespace Interpreter

/-- How deep calls may nest: 10000 unless configured, and never more than 100000. -/
def callLimit (s : Interpreter) : Nat :=
  if s.maxCallDepth ≤ 0 then 10000 else min s.maxCallDepth.toNat 100000

def shownNode (n : Node) : Text :=
  n.source?.getD (utf8 ("%!v(PANIC=String method: runtime error: " ++
    "invalid memory address or nil pointer dereference)"))

def log (s : Interpreter) (line : Text) : Interpreter :=
  match s.tracing with
  | some logger => { s with machine.bench.out := s.machine.bench.out.note (.trace ⟨logger, line⟩) }
  | none => s

def execLine (s : Interpreter) (n : Node) : Text :=
  utf8 "exec " ++ shownNode n ++ utf8 " -- s:" ++ shownStack s.machine.bench.stack ++ utf8 " l:" ++
    shownLoops s.machine.loops

def trace (s : Interpreter) (n : Node) : Interpreter :=
  if s.tracing.isSome then s.log (s.execLine n) else s

abbrev Action := EStateM Stop Interpreter

def fail {α : Type} (op : Text) (trouble : Trouble) : Action α := throw (.fault ⟨op, trouble⟩)

def onMachine {α : Type} (act : Machine.Action α) : Action α := fun s =>
  match act s.machine with
  | .ok a machine => .ok a { s with machine }
  | .error e machine => .error e { s with machine }

def onBench {α : Type} (act : Bench.Action α) : Action α := onMachine (Machine.onBench act)

/-- The text of a literal as the codes of its characters, with their number on top. -/
def literal (text : Text) : Bench.Action Unit := fun b =>
  let codes := text.glyphs.map fun g => Entity.number (.ofNat g.shown.toNat)
  .ok () { b with stack := .number (.ofNat codes.length) :: codes.reverseAux b.stack }

def pop (op : Text) : Bench.Action Entity := fun b =>
  match b.stack with
  | [] => Bench.fail op .underflow b
  | e :: rest => .ok e { b with stack := rest }

def find (name : Text) : Action Binding := fun s =>
  match s.words.find? name with
  | some b => .ok b s
  | none => fail name (.unknownWord name) s

def bind (name : Text) (b : Binding) : Action Unit := fun s =>
  .ok () { s with words := s.words.set name b }

def enterWord (name : Text) (body : List Node) : Action (List Frame) := fun s =>
  if s.callLimit ≤ s.depth then fail name (.tooManyCalls s.callLimit) s
  else .ok [.rest body, .leave] { s with depth := s.depth + 1 }

/-- The next round of the innermost loop, or the way out of it. -/
def round (body : List Node) : Action (List Frame) := fun s =>
  if s.machine.loopDone then .ok [] { s with machine := s.machine.exitLoop }
  else .ok [.rest body, .again body] s

/-- Runs a node up to the bodies that it has to run, and gives these. -/
def perform : Node → Action (List Frame)
  | .number value => do
    onBench (Bench.push (.number value))
    return []
  | .string text => do
    onBench (literal text)
    return []
  | .op kind => do
    onBench (Bench.execute kind)
    return []
  | .block body => return [.rest body]
  | .call name => do
    match ← find name with
    | .variable value =>
      onBench (Bench.push value)
      return []
    | .word body => enterWord name body
  | .define name body => do
    bind name (.word body)
    return []
  | .branch yes no => do
    let condition ← onBench (Bench.popNumber Kind.ifMark.title)
    return [.rest (if condition = 1 then yes else no)]
  | .loop body => do
    let start ← onBench (Bench.popNumber Kind.doMark.title)
    let limit ← onBench (Bench.popNumber Kind.doMark.title)
    onMachine (Machine.enterLoop limit start)
    round body
  | .index depth => do
    let index ← onMachine (Machine.loopIndex depth)
    onBench (Bench.push (.number index))
    return []
  | .set name => do
    let value ← onBench (pop (utf8 "-> " ++ name))
    bind name (.variable value)
    return []
  | .get name => do
    match ← find name with
    | .variable value =>
      onBench (Bench.push value)
      return []
    | .word _ => fail (utf8 "@ " ++ name) (.notVariable name)
  | .hole => throw .broken

/-- What the trace says before a node runs; a block and a hole pass without a word. -/
def announce (s : Interpreter) : Node → Interpreter
  | .block _ | .hole => s
  | .define name _ => s.log (utf8 "define " ++ name)
  | n => s.trace n

def visit (n : Node) : Action (List Frame) := fun s => perform n (s.announce n)

/-- Takes a frame up, and gives the frames that come before the waiting ones. -/
def resume : Frame → Action (List Frame)
  | .rest [] => return []
  | .rest (n :: ns) => do
    let inner ← visit n
    return inner ++ [.rest ns]
  | .leave => fun s => .ok [] { s with depth := s.depth - 1 }
  | .again body => fun s => round body { s with machine := s.machine.stepLoop }

/-- Leaves the word or the loop that a frame belongs to, when the run stops inside it. -/
def abandon (s : Interpreter) : Frame → Interpreter
  | .rest _ => s
  | .leave => { s with depth := s.depth - 1 }
  | .again _ => { s with machine := s.machine.exitLoop }

inductive Progress where
  | more (frames : List Frame) (s : Interpreter)
  | ended (stop : Option Stop) (s : Interpreter)

/-- One step of a run; a stop leaves all words and loops on the way. -/
def step (frames : List Frame) (s : Interpreter) : Progress :=
  match frames with
  | [] => .ended none s
  | frame :: waiting =>
    match resume frame s with
    | .ok inner s => .more (inner ++ waiting) s
    | .error stop s => .ended (some stop) (waiting.foldl abandon s)

end Interpreter
end StackLang
