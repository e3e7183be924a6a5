import StackLang.Tree

/-! From tokens to the tree. The constructs that are still open wait in a list, so that one pass
over the tokens builds the tree and the first token that fits nowhere is the one reported. -/
namespace StackLang

inductive ParseTrouble where
  | unfinished (ends : List Kind)
  | unexpected (kind : Kind)
  | nameMissing (after : Kind)
  | nameReserved (after : Kind) (got : Token)
  | notName (after : Kind) (got : Token)
  deriving DecidableEq, Repr

def ParseTrouble.message : ParseTrouble → Text
  | unfinished ends =>
    utf8 "unexpected end of input, expected " ++ Text.join (utf8 " or ") (ends.map Kind.title)
  | unexpected kind => utf8 "unexpected " ++ kind.title
  | nameMissing after =>
    utf8 "expected identifier after " ++ after.title ++ utf8 ", got end of input"
  | nameReserved after got =>
    utf8 "expected identifier after " ++ after.title ++ utf8 ", got reserved word " ++ got.shown
  | notName after got =>
    utf8 "expected identifier after " ++ after.title ++ utf8 ", got " ++ got.shown

structure ParseFault where
  pos : Pos
  trouble : ParseTrouble
  deriving DecidableEq, Repr

/-- A construct whose end has not been read yet. -/
inductive Opened where
  | define (name : Text)
  | yes
  | no (yes : List Node)
  | loop
  deriving Repr

def Opened.ends : Opened → List Kind
  | define _ => [.semicolon]
  | yes => [.elseMark, .thenMark]
  | no _ => [.thenMark]
  | loop => [.loopMark]

/-- A mark that a name must follow. -/
inductive Naming where
  | define | set | get
  deriving DecidableEq, Repr

def Naming.mark : Naming → Kind
  | define => .colon
  | set => .arrow
  | get => .atMark

/-- The tree as far as it has been read. `body` belongs to the innermost open construct and each
construct comes with the nodes before it; all lists of nodes are newest first. -/
structure Partial where
  body : List Node := []
  opened : List (Opened × List Node) := []
  naming : Option Naming := none
  deriving Repr

namespace Partial

def push (p : Partial) (n : Node) : Partial := { p with body := n :: p.body }

def enter (p : Partial) (o : Opened) : Partial :=
  { body := [], opened := (o, p.body) :: p.opened }

def name (p : Partial) (mark : Naming) (t : Token) : Except ParseFault Partial :=
  match t.kind with
  | .name =>
    let p := { p with naming := none }
    .ok <| match mark with
      | .define => p.enter (.define t.text)
      | .set => p.push (.set t.text)
      | .get => p.push (.get t.text)
  | k =>
    if k = .index ∨ k ∈ Kind.keywords then .error ⟨t.pos, .nameReserved mark.mark t⟩
    else .error ⟨t.pos, .notName mark.mark t⟩

def close (p : Partial) (t : Token) : Except ParseFault Partial :=
  match p.opened, t.kind with
  | (.define name, before) :: outer, .semicolon =>
    .ok { body := .define name p.body.reverse :: before, opened := outer }
  | (.yes, before) :: outer, .elseMark =>
    .ok { body := [], opened := (.no p.body.reverse, before) :: outer }
  | (.yes, before) :: outer, .thenMark =>
    .ok { body := .branch p.body.reverse [] :: before, opened := outer }
  | (.no yes, before) :: outer, .thenMark =>
    .ok { body := .branch yes p.body.reverse :: before, opened := outer }
  | (.loop, before) :: outer, .loopMark =>
    .ok { body := .loop p.body.reverse :: before, opened := outer }
  | _, k => .error ⟨t.pos, .unexpected k⟩

def take (p : Partial) (t : Token) : Except ParseFault Partial :=
  match p.naming with
  | some mark => p.name mark t
  | none =>
    match t.kind with
    | .number => .ok (p.push (.number t.num))
    | .string => .ok (p.push (.string t.text))
    | .name => .ok (p.push (.call t.text))
    | .index => .ok (p.push (.index t.num.toInt))
    | .op o => .ok (p.push (.op (.op o)))
    | .colon => .ok { p with naming := some .define }
    | .arrow => .ok { p with naming := some .set }
    | .atMark => .ok { p with naming := some .get }
    | .ifMark => .ok (p.enter .yes)
    | .doMark => .ok (p.enter .loop)
    | _ => p.close t

def finish (p : Partial) (pos : Pos) : Except ParseFault (List Node) :=
  match p.naming, p.opened with
  | some mark, _ => .error ⟨pos, .nameMissing mark.mark⟩
  | none, (o, _) :: _ => .error ⟨pos, .unfinished o.ends⟩
  | none, [] => .ok p.body.reverse

/-- Reads up to the end token; without one, the end stands where the last token does. -/
def takeAll (p : Partial) (last : Pos) : List Token → Except ParseFault (List Node)
  | [] => p.finish last
  | t :: ts =>
    if t.kind = .eof then p.finish t.pos
    else match p.take t with
      | .error e => .error e
      | .ok p => p.takeAll t.pos ts

end Partial

def parse (ts : List Token) : Except ParseFault (List Node) := Partial.takeAll {} {} ts

end StackLang
