import StackLang.Yaml.Event
import StackLang.Yaml.Scalar

/-! The first document of a YAML text as a tree. -/
namespace StackLang.Yaml

/-- A part of a document, on the line where it starts, counted from 1. A tag is there if it is
written out. An alias has a number of its own and that of the part it stands for. -/
inductive Part where
  | scalar (line : Nat) (tag : Option Text) (isPlain : Bool) (value : Text)
  | seq (line : Nat) (tag : Option Text) (items : List Part)
  | map (line : Nat) (tag : Option Text) (entries : List (Part × Part))
  | reference (line : Nat) (name : Text) (number target : Nat)
  deriving Repr

namespace Part

def line : Part → Nat
  | scalar line _ _ _ | seq line _ _ | map line _ _ | reference line _ _ _ => line

def text : Part → Text
  | scalar _ _ _ t => t
  | reference _ name _ _ => name
  | _ => []

/-- The tag that is written, or the one that the content implies. -/
def tagName : Part → Text
  | scalar _ tag isPlain t => tag.getD (if isPlain then plainTag t else Tag.str.name)
  | seq _ tag _ => tag.getD Tag.seq.name
  | map _ tag _ => tag.getD Tag.map.name
  | reference _ _ _ _ => []

end Part

/-- A document, with the parts that an alias in it can stand for. -/
structure Document where
  root : Part
  anchored : List (Nat × Part) := []
  deriving Repr

def Document.part? (d : Document) (number : Nat) : Option Part :=
  (d.anchored.find? (·.1 = number)).map (·.2)

namespace Compose

structure Open where
  number : Nat
  properties : Properties
  isMap : Bool
  children : List Part := []

/-- What has been built: the open collections, innermost first, and the root once it is whole. -/
structure State where
  opened : List Open := []
  root : Option Part := none
  count : Nat := 0
  names : List (Text × Nat) := []
  anchored : List (Nat × Part) := []

/-- A mark of exclamation alone is as good as no tag. -/
def tagOf (p : Properties) : Option Text :=
  if p.tag = [] ∨ p.tag = utf8 "!" then none else some (shortTag p.tag)

def pairs : List Part → List (Part × Part)
  | key :: value :: rest => (key, value) :: pairs rest
  | _ => []

def Open.part (o : Open) : Part :=
  let children := o.children.reverse
  let line := o.properties.line + 1
  if o.isMap then .map line (tagOf o.properties) (pairs children)
  else .seq line (tagOf o.properties) children

def State.name (s : State) (anchor : Option Text) (number : Nat) : State :=
  match anchor with
  | some name => { s with names := (name, number) :: s.names }
  | none => s

def State.put (s : State) (part : Part) : State :=
  match s.opened with
  | o :: outer => { s with opened := { o with children := part :: o.children } :: outer }
  | [] => { s with root := some part }

def State.open (s : State) (properties : Properties) (isMap : Bool) : State :=
  { s.name properties.anchor s.count with
    opened := { number := s.count, properties, isMap } :: s.opened
    count := s.count + 1 }

def State.keep (s : State) (anchor : Option Text) (number : Nat) (part : Part) : State :=
  if anchor.isSome then { s with anchored := (number, part) :: s.anchored } else s

def State.close (s : State) : State :=
  match s.opened with
  | o :: outer =>
    ({ s with opened := outer }.keep o.properties.anchor o.number o.part).put o.part
  | [] => s

/-- The state after an event. An alias needs a name that has been given. -/
def State.after (s : State) : Event → Except Flaw State
  | .scalar p isPlain value =>
    let part := Part.scalar (p.line + 1) (tagOf p) isPlain value
    let s := (s.name p.anchor s.count).keep p.anchor s.count part
    .ok ({ s with count := s.count + 1 }.put part)
  | .reference line name =>
    match s.names.find? (·.1 = name) with
    | some (_, target) =>
      .ok ({ s with count := s.count + 1 }.put (.reference (line + 1) name s.count target))
    | none => .error { problem := utf8 "unknown anchor '" ++ name ++ utf8 "' referenced" }
  | .seqStart p => .ok (s.open p false)
  | .mapStart p => .ok (s.open p true)
  | .seqEnd | .mapEnd => .ok s.close
  | .textStart | .textEnd | .documentStart | .documentEnd => .ok s

/-- The first document, if there is one. Every lexeme makes a few events at most, so `fuel` does
not run out. -/
def document : Nat → State → Parse (Option Document)
  | 0, _ => return none
  | fuel + 1, s => fun p =>
    match Parse.next p with
    | .error e p => .error e p
    | .ok .textEnd p => .ok none p
    | .ok .documentEnd p => .ok (s.root.map fun root => { root, anchored := s.anchored }) p
    | .ok e p =>
      match s.after e with
      | .ok s => document fuel s p
      | .error flaw => .error flaw p

end Compose

def read (t : Text) : Except Flaw (Option Document) :=
  let scanner := Scanner.ofText t
  match Compose.document (16 * scanner.size) {} { scanner } with
  | .ok d _ => .ok d
  | .error flaw _ => .error flaw

end StackLang.Yaml
