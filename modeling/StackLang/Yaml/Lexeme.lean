import Std.Data.TreeMap
import StackLang.Yaml.Character
import StackLang.Yaml.Feed

/-! The lexemes of a YAML text, and the scanner that finds them. Indentation and keys without a
mark of their own show as lexemes that no character stands for; a key is known only when its colon
is found on the same line, and its mark is then put in front of lexemes that wait. -/
namespace StackLang.Yaml

structure Mark where
  line : Nat := 0
  col : Nat := 0
  index : Nat := 0
  deriving DecidableEq, Repr

inductive Lexeme where
  | textStart | textEnd
  | version (major minor : Nat)
  | tagPrefix (handle start : Text)
  | documentStart | documentEnd
  | seqStart | mapStart | blockEnd
  | flowSeqStart | flowSeqEnd | flowMapStart | flowMapEnd
  | dash | comma | key | colon
  | reference (name : Text)
  | anchor (name : Text)
  | tag (handle suffix : Text)
  | scalar (isPlain : Bool) (value : Text)
  deriving DecidableEq, Repr

structure Placed where
  lexeme : Lexeme
  line : Nat
  deriving DecidableEq, Repr

/-- A place where a key may have begun, with the number of the lexeme there; a required key has to
turn out to be one. -/
structure MaybeKey where
  possible : Bool := false
  required : Bool := false
  number : Nat := 0
  mark : Mark := {}
  deriving DecidableEq, Repr

/-- `queue` holds the lexemes that wait, after `taken` that are gone; `ready` says that the first of
them is certain. `keys` has an entry for the block level and one for each open flow collection, and
`levels` finds it from the number of a lexeme. `indents` are the columns of the open blocks.
`onNewLine` holds while nothing but blanks has come since a line end. `late` is a flaw that was met
looking ahead. `size` bounds the number of characters. -/
structure Scanner where
  feed : Feed
  mark : Mark := {}
  onNewLine : Bool := false
  queue : List Placed := []
  taken : Nat := 0
  ready : Bool := false
  started : Bool := false
  flow : Nat := 0
  indent : Int := -1
  indents : List Int := []
  keyAllowed : Bool := true
  keys : Array MaybeKey := #[{}]
  levels : Std.TreeMap Nat Nat := {}
  late : Option Flaw := none
  size : Nat

def Scanner.ofText (t : Text) : Scanner := { feed := { rest := t }, size := t.length + 16 }

abbrev Scan := EStateM Flaw Scanner

namespace Scan

def fail {α : Type} (problem : String) (began : Mark) : Scan α := fun s =>
  .error { problem := utf8 problem, began := began.line, failed := s.mark.line, isLexical := true } s

def failHere {α : Type} (problem : String) : Scan α := fun s => fail problem s.mark s

/-- Repeats a step until it has a result. A step that takes a character is not repeated more often
than there are characters, so `fuel` does not run out. -/
def repeatUntil {α β : Type} (step : α → Scan (α ⊕ β)) : Nat → α → Scan β
  | 0, _ => failHere "unknown problem parsing YAML content"
  | fuel + 1, a => fun s =>
    match step a s with
    | .ok (.inl a) s => repeatUntil step fuel a s
    | .ok (.inr b) s => .ok b s
    | .error e s => .error e s

def repeated {α β : Type} (a : α) (step : α → Scan (α ⊕ β)) : Scan β := fun s =>
  repeatUntil step s.size a s

def need (n : Nat) : Scan Unit := fun s =>
  match s.feed.need n with
  | (none, feed) => .ok () { s with feed }
  | (some e, feed) => .error e { s with feed }

/-- As `need`, but a flaw is only noted: what can be seen is looked at first. -/
def tryNeed (n : Nat) : Scan Bool := fun s =>
  match s.feed.need n with
  | (none, feed) => .ok true { s with feed }
  | (some e, feed) => .ok false { s with feed, late := some e }

def char (k : Nat) : Scan Char := fun s => .ok (s.feed.char k) s

def mark : Scan Mark := fun s => .ok s.mark s

def inFlow : Scan Bool := fun s => .ok (s.flow ≠ 0) s

def skip : Scan Unit := fun s =>
  let blank := isBlank (s.feed.char 0)
  .ok () { s with
    feed.ahead := s.feed.ahead.drop 1
    mark := { s.mark with col := s.mark.col + 1, index := s.mark.index + 1 }
    onNewLine := s.onNewLine && blank }

def skips : Nat → Scan Unit
  | 0 => pure ()
  | n + 1 => do
    skip
    skips n

/-- Takes a line end; a carriage return and the newline after it are one. -/
def skipLine : Scan Unit := fun s =>
  let c := s.feed.char 0
  let width := if c = '\r' ∧ s.feed.char 1 = '\n' then 2 else 1
  if isBreak c then
    .ok () { s with
      feed.ahead := s.feed.ahead.drop width
      mark := { line := s.mark.line + 1, col := 0, index := s.mark.index + width }
      onNewLine := true }
  else .ok () s

/-- What a line end stands for in a scalar: a newline, unless it separates lines or paragraphs. -/
def lineEnd (c : Char) : List Char :=
  if !isBreak c then [] else if c.toNat = 0x2028 ∨ c.toNat = 0x2029 then [c] else ['\n']

def readLine : Scan (List Char) := do
  let c ← char 0
  skipLine
  return lineEnd c

def readWhile (p : Char → Bool) (done : List Char) : Scan (List Char) :=
  repeated done fun done => do
    let c ← char 0
    if p c then
      skip
      need 1
      return .inl (c :: done)
    else return .inr done

def skipWhile (p : Char → Bool) : Scan Unit := do
  let _ ← readWhile p []

def atMarker : Scan Bool := fun s =>
  let is (c : Char) : Bool :=
    s.feed.char 0 == c && s.feed.char 1 == c && s.feed.char 2 == c && endsWord (s.feed.char 3)
  .ok (s.mark.col == 0 && (is '-' || is '.')) s

def emit (l : Lexeme) (line : Nat) : Scan Unit := modify fun s =>
  { s with queue := s.queue ++ [⟨l, line⟩] }

/-- Puts a lexeme before the one with a number; if that is gone, it comes last. -/
def insertAt (number : Nat) (l : Lexeme) (line : Nat) : Scan Unit := modify fun s =>
  let at' := if s.taken ≤ number then number - s.taken else s.queue.length
  { s with queue := s.queue.take at' ++ ⟨l, line⟩ :: s.queue.drop at' }

def take (l : Lexeme) (n : Nat) : Scan Unit := do
  let start ← mark
  skips n
  emit l start.line

def nextNumber (s : Scanner) : Nat := s.taken + s.queue.length

def keyMissing : String := "could not find expected ':'"

/-- Whether a key may still begin where it was noted: on the same line, and within 1024
characters. -/
def keyHolds (level : Nat) : Scan Bool := fun s =>
  let k := s.keys.getD level {}
  if !k.possible then .ok false s
  else if k.mark.line < s.mark.line ∨ k.mark.index + 1024 < s.mark.index then
    if k.required then fail keyMissing k.mark s
    else .ok false { s with keys := s.keys.setIfInBounds level { k with possible := false } }
  else .ok true s

def removeKey : Scan Unit := fun s =>
  let level := s.keys.size - 1
  let k := s.keys.getD level {}
  if !k.possible then .ok () s
  else if k.required then fail keyMissing k.mark s
  else .ok () { s with
    keys := s.keys.setIfInBounds level { k with possible := false }
    levels := s.levels.erase k.number }

/-- Notes that a key may begin here. In a block it must, at the column of the block. -/
def saveKey : Scan Unit := do
  if (← get).keyAllowed then
    removeKey
    modify fun s =>
      let level := s.keys.size - 1
      let key : MaybeKey :=
        { possible := true, required := s.flow = 0 && s.indent = s.mark.col,
          number := nextNumber s, mark := s.mark }
      { s with
        keys := s.keys.setIfInBounds level key
        levels := s.levels.insert key.number level }

def allowKey (allowed : Bool) : Scan Unit := modify fun s => { s with keyAllowed := allowed }

def maxDepth : Nat := 10000

def tooDeep : String := "exceeded max depth of 10000"

def openFlow : Scan Unit := do
  modify fun s => { s with
    keys := s.keys.push { number := nextNumber s, mark := s.mark }
    flow := s.flow + 1 }
  if maxDepth < (← get).flow then failHere tooDeep

/-- The number under which a level was opened, or of the last key in it, is forgotten with it. -/
def closeFlow : Scan Unit := modify fun s =>
  if s.flow = 0 then s
  else { s with
    flow := s.flow - 1
    levels := s.levels.erase (s.keys.getD (s.keys.size - 1) {}).number
    keys := s.keys.pop }

/-- Opens a block at a column deeper than those open, before the lexeme with a number. -/
def openBlock (at' : Mark) (number : Option Nat) (l : Lexeme) : Scan Unit := do
  let s ← get
  if s.flow = 0 ∧ s.indent < at'.col then
    modify fun s => { s with indent := at'.col, indents := s.indent :: s.indents }
    if maxDepth ≤ s.indents.length then fail tooDeep (s.keys.getD (s.keys.size - 1) {}).mark
    match number with
    | some n => insertAt n l at'.line
    | none => emit l at'.line

def closeBlocks (col : Int) (line : Nat) : Scan Unit := modify fun s =>
  if s.flow ≠ 0 then s
  else
    let closed := ((s.indent :: s.indents).takeWhile (col < ·)).length
    let left := (s.indent :: s.indents).drop closed
    { s with
      queue := s.queue ++ List.replicate closed ⟨.blockEnd, line⟩
      indent := left.headD (-1)
      indents := left.drop 1 }

end Scan
end StackLang.Yaml
