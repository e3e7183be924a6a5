import StackLang.Text

/-! The kinds of token: literals and names, the primitive operations, and the marks that give a
program its structure. -/
namespace StackLang

inductive Op where
  | add | sub | mul | div | mod
  | and | or | invert
  | lt | gt | le | ge | eq | same
  | dup | swap | drop
  | emit | puts | cr
  deriving DecidableEq, Repr

namespace Op

def name : Op → Text
  | add => utf8 "+"
  | sub => utf8 "-"
  | mul => utf8 "*"
  | div => utf8 "/"
  | mod => utf8 "MOD"
  | and => utf8 "AND"
  | or => utf8 "OR"
  | invert => utf8 "INVERT"
  | lt => utf8 "<"
  | gt => utf8 ">"
  | le => utf8 "<="
  | ge => utf8 ">="
  | eq => utf8 "="
  | same => utf8 "=="
  | dup => utf8 "DUP"
  | swap => utf8 "SWAP"
  | drop => utf8 "DROP"
  | emit => utf8 "."
  | puts => utf8 "PUTS"
  | cr => utf8 "CR"

/-- All operations, in the order of their kinds' codes. -/
def all : List Op :=
  [add, sub, mul, div, mod, and, or, invert, lt, gt, le, ge, eq, same, dup, swap, drop, emit,
    puts, cr]

end Op

/-- Kinds have codes from 0 to 33; all other codes are unknown. -/
inductive Kind where
  | eof | number | string | name | index
  | op (o : Op)
  | colon | semicolon
  | ifMark | elseMark | thenMark
  | doMark | loopMark
  | arrow | atMark
  | other (code : UInt8) (unknown : 34 ≤ code)
  deriving DecidableEq, Repr

namespace Kind

def title : Kind → Text
  | eof => utf8 "EOF"
  | number => utf8 "Number"
  | string => utf8 "StringLiteral"
  | name => utf8 "Identifier"
  | index => utf8 "LoopVariable"
  | op o => o.name
  | colon => utf8 ":"
  | semicolon => utf8 ";"
  | ifMark => utf8 "IF"
  | elseMark => utf8 "ELSE"
  | thenMark => utf8 "THEN"
  | doMark => utf8 "DO"
  | loopMark => utf8 "LOOP"
  | arrow => utf8 "->"
  | atMark => utf8 "@"
  | other code _ => utf8 "Kind(" ++ Text.decimal code.toNat ++ utf8 ")"

def isOperation : Kind → Bool
  | op _ => true
  | _ => false

def all : List Kind :=
  [eof, number, string, name, index] ++ Op.all.map op ++
    [colon, semicolon, ifMark, elseMark, thenMark, doMark, loopMark, arrow, atMark]

def ofCode (code : UInt8) : Kind :=
  if unknown : 34 ≤ code then other code unknown
  else all.get ⟨code.toNat, UInt8.lt_iff_toNat_lt.1 (UInt8.not_le.1 unknown)⟩

def code : Kind → UInt8
  | other code _ => code
  | k => .ofNat (all.idxOf k)

/-- The kinds that are spelled as words; their titles are reserved. -/
def keywords : List Kind :=
  [ifMark, elseMark, thenMark, doMark, loopMark] ++
    [Op.dup, Op.swap, Op.drop, Op.puts, Op.mod, Op.and, Op.or, Op.invert, Op.cr].map op

def keyword? (word : Text) : Option Kind := keywords.find? (·.title = word)

end Kind

/-- The names that read a loop index, innermost loop first. -/
def loopLetters : Text := utf8 "IJKLM"

def loopLetter? (word : Text) : Option Nat :=
  match word with
  | [b] => loopLetters.idxOf? b
  | _ => none

def isReserved (word : Text) : Bool := (Kind.keyword? word).isSome || (loopLetter? word).isSome

/-- How the index of the loop at `depth` is written; only the first few have letters. -/
def loopName (depth : Int32) : Text :=
  match (if 0 ≤ depth then loopLetters[depth.toInt.toNat]? else none) with
  | some b => [b]
  | none => utf8 "LoopVariable(" ++ Text.decimal depth.toInt ++ utf8 ")"

end StackLang
