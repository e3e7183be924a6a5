import StackLang.Token.Lexer
import StackLang.Tree.Parser

/-! What can go wrong, as a chain from what is reported down to its cause. The wording of every
message stands here. -/
namespace StackLang

/-- Why a run or a write stopped; a chain ends in at most one of these. -/
inductive Cause where
  | underflow | typeMismatch | divideByZero | wordNotFound | notVariable | loopDepth | noLoop
  | callDepth | invalidCode | invalidLength | notOperation
  | shortWrite
  | device (message : Text)
  deriving DecidableEq, Repr

def Cause.message : Cause → Text
  | underflow => utf8 "stack underflow"
  | typeMismatch => utf8 "type mismatch"
  | divideByZero => utf8 "division by zero"
  | wordNotFound => utf8 "word not found"
  | notVariable => utf8 "not a variable"
  | loopDepth => utf8 "loop nesting too deep"
  | noLoop => utf8 "no enclosing loop"
  | callDepth => utf8 "word expansion too deep"
  | invalidCode => utf8 "invalid character code"
  | invalidLength => utf8 "invalid length"
  | notOperation => utf8 "not an operation"
  | shortWrite => utf8 "short write"
  | device message => message

inductive Stage where
  | lex | parse | run
  | other (code : UInt8) (unknown : code ∉ [1, 2, 3])
  deriving DecidableEq, Repr

namespace Stage

def title : Stage → Text
  | lex => utf8 "lex"
  | parse => utf8 "parse"
  | run => utf8 "runtime"
  | other code _ => utf8 "Kind(" ++ Text.decimal code.toNat ++ utf8 ")"

def ofCode (code : UInt8) : Stage :=
  if unknown : code ∉ [1, 2, 3] then other code unknown
  else if code = 1 then lex
  else if code = 2 then parse
  else run

end Stage

/-- Where a fault arose: the stage, the place in the text and the operation, as far as known. -/
structure Site where
  stage : Stage
  pos : Pos := {}
  op : Text := []
  deriving DecidableEq, Repr

def Site.message (s : Site) : Text :=
  s.stage.title ++ utf8 " error" ++ (if s.pos.isKnown then utf8 " at " ++ s.pos.shown else []) ++
    if s.op = [] then [] else utf8 " in " ++ s.op

inductive Failure where
  | plain (text : Text)
  | cause (c : Cause)
  /-- More on an inner failure, after its own text. -/
  | detailed (inner : Failure) (text : Text)
  /-- An inner failure after a label. -/
  | labelled (label : Text) (inner : Failure)
  | fault (site : Site) (inner : Failure)
  /-- A fault that gives no reason. -/
  | bareFault (site : Site)
  /-- An inner failure of a named source, with the line that it points at. -/
  | located (name : Text) (pos : Pos) (line : Text) (inner : Failure)
  /-- A computation that broke off with a value that is no failure. -/
  | broke (name value trace : Text)
  /-- A computation that broke off with a failure. -/
  | brokeWith (name : Text) (value : Failure) (trace : Text)
  /-- A computation that left without a result. -/
  | left (name : Text)
  deriving DecidableEq, Repr

namespace Failure

def named (name what : Text) : Text := (if name = [] then [] else name ++ utf8 " ") ++ what

def message : Failure → Text
  | plain text => text
  | cause c => c.message
  | detailed inner text => inner.message ++ utf8 ": " ++ text
  | labelled label inner => label ++ utf8 ": " ++ inner.message
  | fault site inner => site.message ++ utf8 ": " ++ inner.message
  | bareFault site => site.message
  | located name _ _ inner => name ++ utf8 ": " ++ inner.message
  | broke name value _ => named name (utf8 "paniced: " ++ value)
  | brokeWith name value _ => named name (utf8 "paniced: " ++ value.message)
  | left name => named name (utf8 "called runtime.Goexit")

def inner? : Failure → Option Failure
  | detailed inner _ | labelled _ inner | fault _ inner | located _ _ _ inner
  | brokeWith _ inner _ => some inner
  | _ => none

def chain (f : Failure) : List Failure :=
  f :: match f with
    | detailed inner _ | labelled _ inner | fault _ inner | located _ _ _ inner
    | brokeWith _ inner _ => inner.chain
    | _ => []

def site? : Failure → Option Site
  | fault site _ | bareFault site => some site
  | _ => none

def firstSite? (f : Failure) : Option Site := f.chain.findSome? site?

def causes (f : Failure) : List Cause :=
  f.chain.filterMap fun g => match g with
    | cause c => some c
    | _ => none

/-- A computation that never returned: its name, whether it left rather than broke off, and the
trace that was taken of it. -/
structure Abort where
  name : Text
  hasLeft : Bool
  trace : Text
  deriving DecidableEq, Repr

def abort? : Failure → Option Abort
  | broke name _ trace | brokeWith name _ trace => some ⟨name, false, trace⟩
  | left name => some ⟨name, true, []⟩
  | _ => none

def firstAbort? (f : Failure) : Option Abort := f.chain.findSome? abort?

def isPanic (f : Failure) : Bool := f.firstAbort?.any fun a => !a.hasLeft

def isExit (f : Failure) : Bool := f.firstAbort?.any (·.hasLeft)

/-- The text under the verbose format, which adds the trace. -/
def verbose (f : Failure) : Text :=
  match f.abort? with
  | some ⟨_, _, trace⟩ =>
    if trace = [] then f.message else f.message ++ utf8 "\nPanic stack: " ++ trace
  | none => f.message

def trace (f : Failure) : Text := (f.firstAbort?.map Abort.trace).getD []

def ofLex (f : LexFault) : Failure :=
  fault { stage := .lex, pos := f.pos } (plain f.trouble.message)

def ofParse (f : ParseFault) : Failure :=
  fault { stage := .parse, pos := f.pos } (plain f.trouble.message)

/-- The stage of the first fault, or the unnamed stage 0. -/
def stage (f : Failure) : Stage := (f.firstSite?.map Site.stage).getD (.other 0 (by decide))

end Failure

def Failure.noReason : Failure :=
  .plain (utf8 "panic called with nil argument (use GODEBUG=panicnil=1 to disable)")

/-- How a computation ended: with a result, by breaking off, or by leaving. A trace is taken when
it breaks off. -/
inductive Ending where
  | returned (result : Option Failure)
  | broke (value : Text) (trace : { t : Text // t ≠ [] })
  | brokeWith (value : Failure) (trace : { t : Text // t ≠ [] })
  | left

namespace Ending

def recover (name : Text) : Ending → Option Failure
  | returned result => result
  | broke value trace => some (.broke name value trace)
  | brokeWith value trace => some (.brokeWith name value trace)
  | left => some (.left name)

/-- As `recover`, and whatever records a computation that never returned becomes a fault of the
run. -/
def isolate (name : Text) (e : Ending) : Option Failure :=
  (e.recover name).map fun f =>
    if f.isPanic || f.isExit then .fault { stage := .run, op := name } f else f

end Ending
end StackLang
