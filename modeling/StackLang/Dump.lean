import StackLang.Session
import StackLang.Tree.Outline

/-! Tokens, trees and sessions written out for whoever wants to look at them. -/
namespace StackLang

/-- One line for each token, up to the first error. -/
def writeTokensBy (printable : Char → Bool) (out : Output) :
    List Token → Option WriteError × Output
  | [] => (none, out)
  | t :: ts =>
    match out.write (t.lineBy printable) with
    | (⟨_, some e⟩, out) => (some e, out)
    | (⟨_, none⟩, out) => writeTokensBy printable out ts

def writeTokens (out : Output) (ts : List Token) : Option WriteError × Output :=
  writeTokensBy isPrintable out ts

inductive OutlineError where
  | hole
  | notText
  | writing (e : WriteError)
  deriving DecidableEq, Repr

def OutlineError.failure : OutlineError → Failure
  | hole => .plain Interpreter.brokenText
  | notText => .plain (utf8 "yaml: cannot marshal invalid UTF-8 data as !!str")
  | writing e => .plain (utf8 "yaml: write error: " ++ e.cause.message)

/-- Writes pieces up to the first error; how much of one was taken is not asked. -/
def writePieces (out : Output) : List Text → Option WriteError × Output
  | [] => (none, out)
  | t :: ts =>
    match out.write t with
    | (⟨_, some e⟩, out) => (some e, out)
    | (⟨_, none⟩, out) => writePieces out ts

def writeTree (out : Output) (n : Node) : Option OutlineError × Output :=
  match n.document? with
  | none => (some .hole, out)
  | some doc =>
    let (pieces, whole) := doc.pieces
    match writePieces out pieces with
    | (some e, out) => (some (.writing e), out)
    | (none, out) => (if whole then none else some .notText, out)

/-- One line for a word or a variable; a word with a hole in it cannot be written. -/
def Binding.line? (name : Text) : Binding → Option Text
  | .word body => (Node.define name body).source?.map fun t => utf8 "    " ++ t ++ utf8 "\n"
  | .variable value => some (utf8 "    " ++ name ++ utf8 " = " ++ value.shown ++ utf8 "\n")

def dump? (m : Machine) (d : Dictionary) : Option Text :=
  (d.mapM fun (entry : Text × Binding) => entry.2.line? entry.1).map fun lines =>
    utf8 "# Stacky Dump\n  stack: " ++ shownStack m.bench.stack ++ utf8 "\n" ++
      (if m.loops = [] then [] else utf8 "  loops: " ++ shownLoops m.loops ++ utf8 "\n") ++
      utf8 "  dict: [" ++ Text.join [Text.space] d.names ++ utf8 "]\n" ++ lines.flatten

def Interpreter.dump? (s : Interpreter) : Option Text := StackLang.dump? s.machine s.words

end StackLang
