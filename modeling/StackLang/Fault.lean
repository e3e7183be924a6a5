import StackLang.Entity
import StackLang.Output

/-! Faults of a running program. -/
namespace StackLang

inductive Trouble where
  | underflow
  | lacking (needed present : Nat)
  | notNumber (got : EntityType)
  | mismatch (a b : EntityType)
  | divideByZero
  | unknownWord (name : Text)
  | notVariable (name : Text)
  | tooManyLoops
  | noLoop (active : Nat)
  | tooManyCalls (limit : Nat)
  | invalidCode (code : Int32)
  | invalidLength (n : Int32)
  | notOperation
  | writing (e : WriteError)
  deriving DecidableEq, Repr

/-- There are as many loops as there are letters to read their indices. -/
def maxLoops : Nat := loopLetters.length

namespace Trouble

def cause : Trouble → Cause
  | underflow | lacking _ _ => .underflow
  | notNumber _ | mismatch _ _ => .typeMismatch
  | divideByZero => .divideByZero
  | unknownWord _ => .wordNotFound
  | notVariable _ => .notVariable
  | tooManyLoops => .loopDepth
  | noLoop _ => .noLoop
  | tooManyCalls _ => .callDepth
  | invalidCode _ => .invalidCode
  | invalidLength _ => .invalidLength
  | notOperation => .notOperation
  | writing e => e.cause

def detail : Trouble → Option Text
  | lacking needed present =>
    some (utf8 "need " ++ Text.decimal needed ++ utf8 ", have " ++ Text.decimal present)
  | notNumber got => some (utf8 "expected number, got " ++ got.name)
  | mismatch a b => some (a.name ++ utf8 " and " ++ b.name)
  | unknownWord name => some name.quoted
  | notVariable name => some (name.quoted ++ utf8 " is a word")
  | tooManyLoops => some (utf8 "at most " ++ Text.decimal maxLoops ++ utf8 " nested loops")
  | noLoop active => some (Text.decimal active ++ utf8 " active")
  | tooManyCalls limit => some (utf8 "more than " ++ Text.decimal limit ++ utf8 " nested calls")
  | invalidCode code => some (Text.decimal code.toInt)
  | invalidLength n => some (Text.decimal n.toInt)
  | underflow | divideByZero | notOperation | writing _ => none

end Trouble

structure Fault where
  op : Text
  trouble : Trouble
  deriving DecidableEq, Repr

def Failure.ofFault (f : Fault) : Failure :=
  .fault { stage := .run, op := f.op } <| match f.trouble.detail with
    | some text => .detailed (.cause f.trouble.cause) text
    | none => .cause f.trouble.cause

/-- A run stops at its first fault, or breaks off where there is nothing to go on with. -/
inductive Stop where
  | fault (f : Fault)
  | broken
  deriving DecidableEq, Repr

end StackLang
