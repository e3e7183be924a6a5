import StackLang.Token

/-! From glyphs to tokens. A cursor always stands between two glyphs, and every token or fault
takes at least one of them, so reading ends. -/
namespace StackLang

inductive LexTrouble where
  | outOfRange (number : Text)
  | unexpected (g : Glyph)
  | unexpectedAfter (g : Glyph) (word : Text)
  deriving DecidableEq, Repr

def LexTrouble.message : LexTrouble → Text
  | outOfRange number => utf8 "invalid number " ++ number.quoted ++ utf8 ": value out of range"
  | unexpected g => utf8 "unexpected character " ++ g.quoted
  | unexpectedAfter g word =>
    utf8 "unexpected character " ++ g.quoted ++ utf8 " after " ++ word.quoted

structure LexFault where
  pos : Pos
  trouble : LexTrouble
  deriving DecidableEq, Repr

namespace Glyph

def isSpace : Glyph → Bool
  | char c =>
    let n := c.toNat
    (0x09 ≤ n && n ≤ 0x0D) || n == 0x20 || n == 0x85 || n == 0xA0 || n == 0x1680 ||
      (0x2000 ≤ n && n ≤ 0x200A) || n == 0x2028 || n == 0x2029 || n == 0x202F || n == 0x205F ||
      n == 0x3000
  | stray _ => false

def isDigit : Glyph → Bool
  | char c => c.isDigit
  | stray _ => false

def isLetter : Glyph → Bool
  | char c => c.isAlpha
  | stray _ => false

def isWordPart (g : Glyph) : Bool := g.isLetter || g.isDigit || g == char '_'

end Glyph

def glyphText (gs : List Glyph) : Text := gs.flatMap Glyph.bytes

def digitsValue (gs : List Glyph) : Nat :=
  gs.foldl (fun n g => n * 10 + (g.shown.toNat - 48)) 0

namespace Token

/-- What was found at the head of some glyphs, and how many after the first belong to it. -/
abbrev Found := Except LexFault Token × Nat

def number (pos : Pos) (negative : Bool) (digits lexeme : List Glyph) : Except LexFault Token :=
  let n : Int := if negative then -(digitsValue digits) else digitsValue digits
  if -2147483648 ≤ n ∧ n ≤ 2147483647 then .ok { kind := .number, pos, num := .ofInt n }
  else .error ⟨pos, .outOfRange (glyphText lexeme)⟩

def word (pos : Pos) (text : Text) : Token :=
  match Kind.keyword? text, loopLetter? text with
  | some kind, _ => { kind, pos }
  | none, some depth => { kind := .index, pos, num := .ofNat depth }
  | none, none => { kind := .name, pos, text }

/-- A word ends at a space or at the end, and at nothing else. -/
def scanWord (pos : Pos) (g : Glyph) (rest : List Glyph) : Found :=
  let part := rest.takeWhile Glyph.isWordPart
  let text := glyphText (g :: part)
  match (rest.drop part.length).head? with
  | some next =>
    if next.isSpace then (.ok (word pos text), part.length)
    else (.error ⟨pos.afterAll (g :: part), .unexpectedAfter next text⟩, part.length)
  | none => (.ok (word pos text), part.length)

/-- A string takes all up to its closing quote, or to the end if there is none. -/
def scanString (pos : Pos) (rest : List Glyph) : Found :=
  let inside := rest.takeWhile (· ≠ .char '"')
  let closed := if inside.length < rest.length then 1 else 0
  (.ok { kind := .string, pos, text := glyphText inside }, inside.length + closed)

/-- The operators and marks of one or two characters; the longer reading wins. -/
def scanMark (pos : Pos) (g : Glyph) (rest : List Glyph) : Found :=
  let followed (c : Char) (long short : Kind) : Found :=
    if rest.head? = some (.char c) then (.ok { kind := long, pos }, 1)
    else (.ok { kind := short, pos }, 0)
  let alone (kind : Kind) : Found := (.ok { kind, pos }, 0)
  match g with
  | .char '-' => followed '>' .arrow (.op .sub)
  | .char '>' => followed '=' (.op .ge) (.op .gt)
  | .char '<' => followed '=' (.op .le) (.op .lt)
  | .char '=' => followed '=' (.op .same) (.op .eq)
  | .char '+' => alone (.op .add)
  | .char '*' => alone (.op .mul)
  | .char '/' => alone (.op .div)
  | .char '.' => alone (.op .emit)
  | .char ':' => alone .colon
  | .char ';' => alone .semicolon
  | .char '@' => alone .atMark
  | _ => (.error ⟨pos, .unexpected g⟩, 0)

def scan (pos : Pos) (g : Glyph) (rest : List Glyph) : Found :=
  let digits := rest.takeWhile Glyph.isDigit
  if g.isDigit then (number pos false (g :: digits) (g :: digits), digits.length)
  else if g = .char '-' ∧ digits ≠ [] then (number pos true digits (g :: digits), digits.length)
  else if g.isLetter then scanWord pos g rest
  else if g = .char '"' then scanString pos rest
  else scanMark pos g rest

end Token

/-- The glyphs still to be read, and where the first of them stands. -/
structure Cursor where
  rest : List Glyph
  pos : Pos := .start
  deriving DecidableEq, Repr

namespace Cursor

def ofText (src : Text) : Cursor := { rest := src.glyphs }

def advance (c : Cursor) (n : Nat) : Cursor :=
  ⟨c.rest.drop n, c.pos.afterAll (c.rest.take n)⟩

def skipSpace (c : Cursor) : Cursor := c.advance (c.rest.takeWhile Glyph.isSpace).length

/-- The next token or fault; after the end there is only the end. -/
def next (c : Cursor) : Except LexFault Token × Cursor :=
  let c := c.skipSpace
  match c.rest with
  | [] => (.ok { kind := .eof, pos := c.pos }, c)
  | g :: rest =>
    let (found, n) := Token.scan c.pos g rest
    (found, c.advance (n + 1))

theorem length_advance (c : Cursor) (n : Nat) : (c.advance n).rest.length = c.rest.length - n := by
  simp [advance]

/-- Only the end takes nothing. -/
theorem next_takes {c after : Cursor} {t : Token} (found : c.next = (.ok t, after))
    (more : t.kind ≠ .eof) : after.rest.length < c.rest.length := by
  have shorter : c.skipSpace.rest.length ≤ c.rest.length := by simp [skipSpace, length_advance]
  cases seen : c.skipSpace.rest with
  | nil =>
    simp only [next, seen] at found
    cases found
    exact absurd rfl more
  | cons g rest =>
    simp only [next, seen] at found
    obtain ⟨_, rfl⟩ := Prod.mk.inj found
    rw [length_advance]
    rw [seen] at shorter ⊢
    simp at shorter ⊢
    omega

/-- The tokens from here on, after those already read, newest first. -/
def tokensAfter (read : List Token) (c : Cursor) : Except LexFault (List Token) :=
  match found : c.next with
  | (.error e, _) => .error e
  | (.ok t, after) =>
    if more : t.kind = .eof then .ok (t :: read).reverse
    else
      have := next_takes found more
      tokensAfter (t :: read) after
termination_by c.rest.length

/-- What `n` calls of `next` find, also after faults. -/
def nextMany : Nat → Cursor → List (Except LexFault Token)
  | 0, _ => []
  | n + 1, c =>
    let (found, after) := c.next
    found :: nextMany n after

end Cursor

def lex (src : Text) : Except LexFault (List Token) := (Cursor.ofText src).tokensAfter []

end StackLang
