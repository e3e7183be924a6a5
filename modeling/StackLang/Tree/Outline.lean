import StackLang.Tree
import StackLang.Yaml.Document

/-! A tree as a document: a sequence for a block or a body, a mapping with one key for every other
node. `outline?` says what the document is; `draft` puts it together, with one place for whatever
part was finished last. -/
namespace StackLang

/-- Drafting holds the part that was finished last, and no other. It breaks off at a hole. -/
abbrev Drafting := StateT (Option Yaml) Option

namespace Drafting

def leave (part : Yaml) : Drafting Unit := fun _ => some ((), some part)

def finished : Drafting Yaml := fun held => held.map fun part => (part, held)

end Drafting

namespace Node
open Drafting

def entry (key : String) (value : Yaml) : Yaml := .map [(utf8 key, value)]

/-- An `else` is only written where there is something in it. -/
def branches (yes no : List Yaml) : Yaml :=
  .map ((utf8 "then", .seq yes) :: if no.isEmpty then [] else [(utf8 "else", .seq no)])

mutual

def outline? : Node → Option Yaml
  | number value => some (entry "number" (.int value.toInt))
  | string text => some (entry "string" (.quoted text))
  | op kind => some (entry "op" (.text kind.title))
  | block body => (outlines? body).map .seq
  | call name => some (entry "call" (.text name))
  | define name body => (outlines? body).map fun ys =>
      entry "define" (.map [(utf8 "name", .text name), (utf8 "body", .seq ys)])
  | branch yes no =>
    (outlines? yes).bind fun ys => (outlines? no).map fun zs => entry "if" (branches ys zs)
  | loop body => (outlines? body).map fun ys => entry "loop" (.seq ys)
  | index depth => some (entry "index" (.text (loopName (.ofInt depth))))
  | set name => some (entry "set" (.text name))
  | get name => some (entry "get" (.text name))
  | hole => none

def outlines? : List Node → Option (List Yaml)
  | [] => some []
  | n :: ns => n.outline?.bind fun y => (outlines? ns).map fun ys => y :: ys

end

mutual

def draft : Node → Drafting Unit
  | number value => leave (entry "number" (.int value.toInt))
  | string text => leave (entry "string" (.quoted text))
  | op kind => leave (entry "op" (.text kind.title))
  | block body => do leave (.seq (← draftAll body))
  | call name => leave (entry "call" (.text name))
  | define name body => do
    let ys ← draftAll body
    leave (entry "define" (.map [(utf8 "name", .text name), (utf8 "body", .seq ys)]))
  | branch yes no => do
    let ys ← draftAll yes
    if no.isEmpty then leave (entry "if" (.map [(utf8 "then", .seq ys)]))
    else
      let zs ← draftAll no
      leave (entry "if" (.map [(utf8 "then", .seq ys), (utf8 "else", .seq zs)]))
  | loop body => do leave (entry "loop" (.seq (← draftAll body)))
  | index depth => leave (entry "index" (.text (loopName (.ofInt depth))))
  | set name => leave (entry "set" (.text name))
  | get name => leave (entry "get" (.text name))
  | hole => failure

/-- Drafts nodes in order. The document of each is taken before the next one is begun. -/
def draftAll : List Node → Drafting (List Yaml)
  | [] => pure []
  | n :: ns => do
    n.draft
    let y ← finished
    return y :: (← draftAll ns)

end

/-- The document of a node, drafted with nothing held before. -/
def document? (n : Node) : Option Yaml := StateT.run' (do n.draft; finished) none

end StackLang.Node
