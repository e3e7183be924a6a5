import StackLang.Token

/-! The tree of a program, and its text. A tree that is put together by hand may have holes, which
no text can fill. -/
namespace StackLang

inductive Node where
  | number (value : Int32)
  | string (text : Text)
  | op (kind : Kind)
  | block (body : List Node)
  | call (name : Text)
  | define (name : Text) (body : List Node)
  | branch (yes no : List Node)
  | loop (body : List Node)
  | index (depth : Int)
  | set (name : Text)
  | get (name : Text)
  | hole
  deriving Repr, BEq

namespace Node

mutual

/-- The node as program text; a hole has none. -/
def source? : Node → Option Text
  | number value => some (Text.decimal value.toInt)
  | string text => some (utf8 "\"" ++ text ++ utf8 "\"")
  | op kind => some kind.title
  | block body => (spaced? body).map (·.drop 1)
  | call name => some name
  | define name body => (spaced? body).map fun t => utf8 ": " ++ name ++ t ++ utf8 " ;"
  | branch yes [] => (spaced? yes).map fun t => utf8 "IF" ++ t ++ utf8 " THEN"
  | branch yes no =>
    (spaced? yes).bind fun t => (spaced? no).map fun u =>
      utf8 "IF" ++ t ++ utf8 " ELSE" ++ u ++ utf8 " THEN"
  | loop body => (spaced? body).map fun t => utf8 "DO" ++ t ++ utf8 " LOOP"
  | index depth => some (loopName (.ofInt depth))
  | set name => some (utf8 "-> " ++ name)
  | get name => some (utf8 "@ " ++ name)
  | hole => none

def spaced? : List Node → Option Text
  | [] => some []
  | n :: ns => n.source?.bind fun t => (spaced? ns).map fun u => Text.space :: (t ++ u)

end

end Node
end StackLang
