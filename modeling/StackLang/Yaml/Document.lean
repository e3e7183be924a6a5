import StackLang.Text.Glyph
import StackLang.Yaml.Character
import StackLang.Yaml.Scalar

/-! YAML documents and their text: block style, two spaces for each level, long lines left as they
are. A scalar is written plain where it reads back as the text it is. The text leaves in pieces. -/
namespace StackLang

/-- A string in `text` style takes the plainest form that keeps it a string; one in `quoted` style
is always between double quotes. -/
inductive Yaml where
  | int (value : Int)
  | text (value : Text)
  | quoted (value : Text)
  | seq (items : List Yaml)
  | map (entries : List (Text × Yaml))
  deriving Repr

namespace Yaml

/-- A pen knows its column, whether only indentation has been written on its line, and whether it
stands after a blank. What it has written is held in a buffer until there is a piece of it. -/
structure Pen where
  col : Nat := 0
  indenting : Bool := true
  spaced : Bool := true
  buffer : Text := []
  held : Nat := 0
  pieces : List Text := []
  deriving Repr

namespace Pen

def pieceSize : Nat := 123

def ink (p : Pen) (bytes : Text) : Pen :=
  let p := if p.held < pieceSize then p
    else { p with pieces := p.buffer.reverse :: p.pieces, buffer := [], held := 0 }
  { p with buffer := bytes.reverseAux p.buffer, held := p.held + bytes.length }

def put (p : Pen) (b : UInt8) : Pen := { p.ink [b] with col := p.col + 1 }

def write (p : Pen) (c : Char) : Pen := { p.ink (encode c) with col := p.col + 1 }

/-- After a line end the pen is at the start of a line, whatever the character was. -/
def writeBreak (p : Pen) (c : Char) : Pen := { p.write c with col := 0, indenting := true }

def newline (p : Pen) : Pen := p.writeBreak '\n'

def spaces (p : Pen) : Nat → Pen
  | 0 => p
  | n + 1 => (p.put Text.space).spaces n

/-- Goes to a column, on a new line unless the pen can get there on this one. -/
def indent (p : Pen) (col : Nat) : Pen :=
  let p := if !p.indenting ∨ col < p.col ∨ (p.col = col ∧ !p.spaced) then p.newline else p
  { p.spaces (col - p.col) with spaced := true }

/-- Writes a sign; `apart` asks for a blank before it. After some signs one may go on as at the
start of the line. -/
def sign (p : Pen) (t : Text) (apart spaced indenting : Bool) : Pen :=
  let p := if apart ∧ !p.spaced then p.put Text.space else p
  let p := t.foldl put p
  { p with spaced, indenting := p.indenting && indenting }

def finish (p : Pen) : List Text :=
  let p := p.indent 0
  (p.buffer.reverse :: p.pieces).reverse

end Pen

/-- Characters that a document may show: no control characters, no byte order mark, and nothing
beyond the first plane. -/
def isShown (c : Char) : Bool :=
  let n := c.toNat
  n == 0x0A || (0x20 ≤ n && n ≤ 0x7E) || (0xA0 ≤ n && n ≤ 0xFFFD && n != 0xFEFF)

def escapeLetter? (c : Char) : Option UInt8 :=
  match c.toNat with
  | 0x00 => some 0x30
  | 0x07 => some 0x61
  | 0x08 => some 0x62
  | 0x09 => some 0x74
  | 0x0A => some 0x6E
  | 0x0B => some 0x76
  | 0x0C => some 0x66
  | 0x0D => some 0x72
  | 0x1B => some 0x65
  | 0x22 => some 0x22
  | 0x5C => some 0x5C
  | 0x85 => some 0x4E
  | 0xA0 => some 0x5F
  | 0x2028 => some 0x4C
  | 0x2029 => some 0x50
  | _ => none

def escape (c : Char) : Text :=
  match escapeLetter? c with
  | some l => [0x5C, l]
  | none =>
    let n := c.toNat
    if n ≤ 0xFF then utf8 "\\x" ++ (Text.hex 2 n).upper
    else if n ≤ 0xFFFF then utf8 "\\u" ++ (Text.hex 4 n).upper
    else utf8 "\\U" ++ (Text.hex 8 n).upper

/-- A text that starts with a byte order mark is escaped throughout. -/
def doubleQuoted (p : Pen) (cs : List Char) : Pen :=
  let marked := cs.head?.map Char.toNat = some 0xFEFF
  let one (p : Pen) (c : Char) : Pen :=
    if marked ∨ !isShown c ∨ isBreak c ∨ c = '"' ∨ c = '\\' then (escape c).foldl Pen.put p
    else p.write c
  (cs.foldl one (p.sign [0x22] true false false)).sign [0x22] false false false

/-- Characters with the line ends between them: after one, the text goes on at the indentation. -/
def drawLines (draw : Pen → Char → Pen) (indent : Nat) (atStart : Bool) (p : Pen) :
    List Char → Pen
  | [] => p
  | c :: rest =>
    if isBreak c then drawLines draw indent true (p.writeBreak c) rest
    else
      let p := draw (if atStart then p.indent indent else p) c
      drawLines draw indent false { p with indenting := false } rest

def singleQuoted (p : Pen) (indent : Nat) (cs : List Char) : Pen :=
  let draw (p : Pen) (c : Char) : Pen := (if c = '\x27' then p.write c else p).write c
  (drawLines draw indent false (p.sign [0x27] true false false) cs).sign [0x27] false false false

/-- A hint for leading blanks, and one for the line ends at the end. -/
def hints (cs : List Char) : Text :=
  (if cs.head?.any fun c => isSpace c || isBreak c then utf8 "2" else []) ++
    match cs.reverse with
    | c :: before =>
      if !isBreak c then utf8 "-" else if before.head?.all isBreak then utf8 "+" else []
    | [] => utf8 "-"

def literal (p : Pen) (indent : Nat) (cs : List Char) : Pen :=
  let p := (p.sign (utf8 "|") true false false).sign (hints cs) false false false
  drawLines Pen.write indent true { p with spaced := true } cs

def anyBetween (p : Option Char → Char → Option Char → Bool) : Option Char → List Char → Bool
  | _, [] => false
  | before, c :: rest => p before c rest.head? || anyBetween p (some c) rest

def isIndicator (before : Option Char) (c : Char) (after : Option Char) : Bool :=
  let ends := after.all isBlank
  match before with
  | none =>
    "#,[]\x7b\x7d&*!|>\x27\"%@\x60".toList.contains c ||
      ((c == '?' || c == ':' || c == '-') && ends)
  | some b => (c == ':' && ends) || (c == '#' && endsWord b)

def hasIndicator (cs : List Char) : Bool :=
  cs.take 3 = ['-', '-', '-'] || cs.take 3 = ['.', '.', '.'] || anyBetween isIndicator none cs

inductive Style where
  | plain | single | double | literal
  deriving DecidableEq, Repr

/-- How a text must be written so that it reads back as itself. -/
def plainest (value : Text) (cs : List Char) : Style :=
  let hidden := cs.any fun c => !isShown c && c != '\t'
  let spaceBreak := anyBetween (fun before c _ => before == some ' ' && isBreak c) none cs
  let breakSpace := anyBetween (fun before c _ => before.any isBreak && c == ' ') none cs
  let trailing := cs.getLast? = some ' '
  if cs.contains '\n' then if trailing ∨ spaceBreak ∨ hidden then .double else .literal
  else if (resolve value).tag ≠ .str then .double
  else if hidden ∨ cs.contains '\t' ∨ spaceBreak ∨ breakSpace then .double
  else if cs.head? = some ' ' ∨ trailing ∨ cs.any isBreak ∨ hasIndicator cs then .single
  else .plain

def scalar (p : Pen) (indent : Nat) (style : Style) (cs : List Char) : Pen :=
  match style with
  | .plain =>
    let p := if cs ≠ [] ∧ !p.spaced then p.put Text.space else p
    { cs.foldl Pen.write p with spaced := p.spaced && cs.isEmpty, indenting := false }
  | .single => singleQuoted p indent cs
  | .double => doubleQuoted p cs
  | .literal => literal p indent cs

def chars? (t : Text) : Option (List Char) :=
  t.glyphs.mapM fun g => match g with
    | .char c => some c
    | .stray _ => none

inductive Place where
  | root
  | item (indent : Nat)
  | key (indent : Nat)
  | value
  deriving DecidableEq, Repr

def Place.draw (p : Pen) : Place → Pen
  | root => p
  | item col => (p.indent col).sign (utf8 "-") true false true
  | key col => p.indent col
  | value => p.sign (utf8 ":") false false false

/-- A step of writing a document. An empty collection is written when it ends. -/
inductive Step where
  | seqStart (place : Place)
  | mapStart (place : Place)
  | seqEnd (isEmpty : Bool)
  | mapEnd (isEmpty : Bool)
  | scalar (place : Place) (indent : Nat) (style : Style) (cs : List Char)
  /-- A string that is not valid UTF-8. -/
  | stray
  deriving DecidableEq, Repr

namespace Step

def draw (p : Pen) : Step → Pen
  | seqStart place | mapStart place => place.draw p
  | seqEnd isEmpty =>
    if isEmpty then (p.sign (utf8 "[") true true false).sign (utf8 "]") false false false else p
  | mapEnd isEmpty =>
    if isEmpty then (p.sign (utf8 "\x7b") true true false).sign (utf8 "\x7d") false false false
    else p
  | scalar place indent style cs => Yaml.scalar (place.draw p) indent style cs
  | stray => p

/-- A collection is only begun when a few steps after it are known, or all of it. -/
def lookahead : Step → Nat
  | seqStart _ => 2
  | mapStart _ => 3
  | _ => 0

def depth : Step → Int
  | seqStart _ | mapStart _ => 1
  | seqEnd _ | mapEnd _ => -1
  | _ => 0

def closes (open' : Int) : List Step → Bool
  | [] => false
  | s :: rest => let open' := open' + s.depth; open' = 0 || closes open' rest

/-- The steps that can be taken while no more than these are known. -/
def certain : List Step → List Step
  | [] => []
  | s :: rest =>
    if !(rest.drop (s.lookahead - 1)).isEmpty ∨ s.lookahead = 0 ∨ closes s.depth rest then
      s :: certain rest
    else []

end Step

def textStep (place : Place) (indent : Nat) (value : Text) (style : List Char → Style) : Step :=
  match chars? value with
  | some cs => .scalar place indent (style cs) cs
  | none => .stray

mutual

def steps (place : Place) (indent : Nat) : Yaml → List Step
  | int value => [textStep place indent (Text.decimal value) fun _ => .plain]
  | text value => [textStep place indent value (plainest value)]
  | quoted value => [textStep place indent value fun _ => .double]
  | seq items => .seqStart place :: (itemSteps indent items ++ [.seqEnd items.isEmpty])
  | map entries => .mapStart place :: (entrySteps indent entries ++ [.mapEnd entries.isEmpty])

def itemSteps (indent : Nat) : List Yaml → List Step
  | [] => []
  | item :: items => steps (.item indent) (indent + 2) item ++ itemSteps indent items

def entrySteps (indent : Nat) : List (Text × Yaml) → List Step
  | [] => []
  | entry :: entries => pairSteps indent entry ++ entrySteps indent entries

def pairSteps (indent : Nat) : Text × Yaml → List Step
  | (key, value) =>
    textStep (.key indent) (indent + 2) key (plainest key) :: steps .value (indent + 2) value

end

/-- The pieces of a document. A string that is not valid UTF-8 ends it, with those that are full by
then. -/
def pieces (doc : Yaml) : List Text × Bool :=
  let all := doc.steps .root 0
  let valid := all.takeWhile (· ≠ .stray)
  if valid.length = all.length then ((all.foldl Step.draw {}).finish, true)
  else (((Step.certain valid).foldl Step.draw {}).pieces.reverse, false)

end Yaml
end StackLang
