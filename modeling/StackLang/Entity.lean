import StackLang.Text.Quoted

/-! The values of the data stack. Programs only make numbers; the rest comes from a host. -/
namespace StackLang

inductive Entity where
  | number (n : Int32)
  | string (text : Text)
  | pointer (address : UInt32)
  | function (name : Text)
  | nothing
  deriving DecidableEq, Repr

inductive EntityType where
  | number | string | pointer | function | nothing
  deriving DecidableEq, Repr

def EntityType.name : EntityType → Text
  | number => utf8 "number"
  | string => utf8 "string"
  | pointer => utf8 "pointer"
  | function => utf8 "function"
  | nothing => utf8 "<nil>"

namespace Entity

def type : Entity → EntityType
  | number _ => .number
  | string _ => .string
  | pointer _ => .pointer
  | function _ => .function
  | nothing => .nothing

/-- What is emitted for an entity; there is nothing to emit for nothing. -/
def emitted? : Entity → Option Text
  | number n => some (Text.decimal n.toInt)
  | string text => some text
  | pointer address => some (utf8 "#" ++ Text.hex 1 address.toNat)
  | function name => some (utf8 "FUNC: " ++ name)
  | nothing => none

def shown : Entity → Text
  | string text => text.quoted
  | nothing => utf8 "<nil>"
  | e => e.emitted?.getD []

def numeric? : Entity → Option Int
  | number n => some n.toInt
  | pointer address => some address.toNat
  | _ => none

/-- Numbers and pointers are equal by value, strings by text, and nothing else is equal. -/
def equal (a b : Entity) : Bool :=
  match a, b with
  | string s, string t => s == t
  | a, b => match a.numeric?, b.numeric? with
    | some m, some n => m == n
    | _, _ => false

end Entity

/-- Entities from the bottom of the stack to its top, where `top` comes first in the list. -/
def shownStack (stack : List Entity) : Text :=
  utf8 "[" ++ Text.join [Text.space] (stack.reverse.map Entity.shown) ++ utf8 "]"

end StackLang
