import StackLang.Text

/-! The characters of a YAML text. Bytes are read in blocks, and a block is decoded as a whole: a
byte that cannot be decoded is noticed when its block is read, and not before. -/
namespace StackLang.Yaml

/-- What is wrong with a text: the lines where the construct began and where it failed. A lexical
flaw counts its lines from 1. -/
structure Flaw where
  problem : Text
  began : Nat := 0
  failed : Nat := 0
  isLexical : Bool := false
  deriving DecidableEq, Repr

/-- The line is named unless it is the first one of the count. -/
def Flaw.message (f : Flaw) : Text :=
  let line := if f.began = 0 then f.failed else f.began
  let named := if f.isLexical then line + 1 else line
  utf8 "yaml: " ++ (if line = 0 then [] else utf8 "line " ++ Text.decimal named ++ utf8 ": ") ++
    f.problem

inductive Coding where
  | utf8
  | utf16 (bigEndian : Bool)
  deriving DecidableEq, Repr

inductive Decoded where
  | char (c : Char) (rest : Text)
  /-- The character may go on in the next block. -/
  | cut (problem : String)
  | bad (problem : String)

/-- Tab, line ends and all that can be printed; the byte order mark is among them. -/
def isAllowed (n : Nat) : Bool :=
  n == 9 || n == 10 || n == 13 || (0x20 ≤ n && n ≤ 0x7E) || n == 0x85 ||
    (0xA0 ≤ n && n != 0xFFFE && n != 0xFFFF)

def Decoded.ofCode (n : Nat) (rest : Text) : Decoded :=
  if isAllowed n then .char (Char.ofNat n) rest else .bad "control characters are not allowed"

/-- The length of a character that starts with a byte, and what the byte gives to its code. -/
def lead? (b : UInt8) : Option (Nat × Nat) :=
  let n := b.toNat
  if n < 0x80 then some (1, n)
  else if n < 0xC0 then none
  else if n < 0xE0 then some (2, n - 0xC0)
  else if n < 0xF0 then some (3, n - 0xE0)
  else if n < 0xF8 then some (4, n - 0xF0)
  else none

def leastCode (length : Nat) : Nat :=
  match length with
  | 2 => 0x80
  | 3 => 0x800
  | 4 => 0x10000
  | _ => 0

def decodeUtf8 : Text → Decoded
  | [] => .cut "incomplete UTF-8 octet sequence"
  | b :: rest =>
    match lead? b with
    | none => .bad "invalid leading UTF-8 octet"
    | some (length, payload) =>
      let trail := rest.take (length - 1)
      let code := trail.foldl (fun n b => n * 64 + b.toNat % 64) payload
      if trail.length < length - 1 then .cut "incomplete UTF-8 octet sequence"
      else if trail.any fun b => b.toNat < 0x80 || 0xC0 ≤ b.toNat then
        .bad "invalid trailing UTF-8 octet"
      else if code < leastCode length then .bad "invalid length of a UTF-8 sequence"
      else if !code.isValidChar then .bad "invalid Unicode character"
      else .ofCode code (rest.drop (length - 1))

def decodeUtf16 (bigEndian : Bool) (t : Text) : Decoded :=
  let unit (a b : UInt8) : Nat :=
    if bigEndian then a.toNat * 256 + b.toNat else a.toNat + b.toNat * 256
  match t with
  | a :: b :: rest =>
    let high := unit a b
    if high / 1024 = 0x37 then .bad "unexpected low surrogate area"
    else if high / 1024 = 0x36 then
      match rest with
      | c :: d :: rest =>
        let low := unit c d
        if low / 1024 = 0x37 then .ofCode (0x10000 + high % 1024 * 1024 + low % 1024) rest
        else .bad "expected low surrogate area"
      | _ => .cut "incomplete UTF-16 surrogate pair"
    else .ofCode high rest
  | _ => .cut "incomplete UTF-16 character"

def Coding.decode : Coding → Text → Decoded
  | utf8 => decodeUtf8
  | utf16 bigEndian => decodeUtf16 bigEndian

def blockSize : Nat := 512

/-- `ahead` are the characters that may be looked at; the end of the text shows as zeros there.
`block` has been read and not been decoded, and `rest` has not been read. `marked` says that what
was ahead at the last reading starts with a byte order mark. -/
structure Feed where
  ahead : List Char := []
  block : Text := []
  rest : Text
  ended : Bool := false
  coding : Option Coding := none
  marked : Bool := false
  deriving Repr

namespace Feed

/-- Fills the block up. That there is nothing more is only known once nothing more came. -/
def read (f : Feed) : Feed :=
  if f.ended then f
  else if f.rest.isEmpty then { f with ended := true }
  else
    let room := max 1 (blockSize - f.block.length)
    { f with block := f.block ++ f.rest.take room, rest := f.rest.drop room }

/-- A byte order mark at the start tells the coding, and is no part of the text. -/
def start (f : Feed) : Feed :=
  if f.coding.isSome then f
  else
    let f := f.read
    let f := if f.block.length < 3 then f.read else f
    match f.block with
    | 0xFF :: 0xFE :: block => { f with coding := some (.utf16 false), block }
    | 0xFE :: 0xFF :: block => { f with coding := some (.utf16 true), block }
    | 0xEF :: 0xBB :: 0xBF :: block => { f with coding := some .utf8, block }
    | _ => { f with coding := some .utf8 }

/-- The characters of a block, after those in `done`, newest first; what is left of the block, and
what is wrong with it. -/
def decodeAll (coding : Coding) (ended : Bool) : Nat → List Char → Text →
    List Char × Text × Option String
  | 0, done, block => (done.reverse, block, none)
  | _ + 1, done, [] => (done.reverse, [], none)
  | fuel + 1, done, block =>
    match coding.decode block with
    | .char c rest => decodeAll coding ended fuel (c :: done) rest
    | .cut problem => (done.reverse, block, if ended then some problem else none)
    | .bad problem => (done.reverse, block, some problem)

def decode (f : Feed) : Option Flaw × Feed :=
  let (chars, block, problem) :=
    decodeAll (f.coding.getD .utf8) f.ended f.block.length [] f.block
  (problem.map fun p => { problem := utf8 p }, { f with ahead := f.ahead ++ chars, block })

def toCome (f : Feed) : Nat := f.rest.length + if f.ended then 0 else 1

theorem toCome_decode (f : Feed) : f.decode.2.toCome = f.toCome := rfl

theorem toCome_read {f : Feed} (going : f.ended = false) : f.read.toCome < f.toCome := by
  unfold read
  rw [if_neg (by simp [going])]
  split
  · simp [toCome, going]
  · rename_i left
    have : f.rest.length ≠ 0 := by simpa using left
    simp [toCome, going]
    omega

def has (f : Feed) (n : Nat) : Bool := n = 0 || !(f.ahead.drop (n - 1)).isEmpty

def fill (n : Nat) (f : Feed) : Option Flaw × Feed :=
  match _decoded : f.decode with
  | (some flaw, f) => (some flaw, f)
  | (none, g) =>
    if _ended : g.ended then (none, { g with ahead := g.ahead ++ ['\x00'] })
    else if g.has n then (none, g)
    else fill n g.read
termination_by f.toCome
decreasing_by
  have same : g.toCome = f.toCome := by rw [← toCome_decode f, _decoded]
  rw [← same]
  exact toCome_read (by simpa using _ended)

def need (n : Nat) (f : Feed) : Option Flaw × Feed :=
  if f.has n then (none, f)
  else
    let f := f.start
    let (flaw, f) := fill n (if f.block.isEmpty then f.read else f)
    (flaw, { f with marked := f.ahead.head?.any (·.toNat = 0xFEFF) })

def char (f : Feed) (k : Nat) : Char := f.ahead.getD k '\x00'

end Feed
end StackLang.Yaml
