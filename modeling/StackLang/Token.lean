import StackLang.Text.Quoted
import StackLang.Token.Kind

/-! Tokens and where they stand. -/
namespace StackLang

/-- Line and column, both counted from 1; a line of 0 means that no position is known. -/
structure Pos where
  line : Int := 0
  col : Int := 0
  deriving DecidableEq, Repr

namespace Pos

def isKnown (p : Pos) : Bool := 0 < p.line

def shown (p : Pos) : Text := Text.decimal p.line ++ utf8 ":" ++ Text.decimal p.col

def start : Pos := ⟨1, 1⟩

def after (p : Pos) (g : Glyph) : Pos :=
  if g = .char '\n' then ⟨p.line + 1, 1⟩ else ⟨p.line, p.col + 1⟩

def afterAll (p : Pos) (gs : List Glyph) : Pos := gs.foldl after p

end Pos

/-- `num` is the value of a number and the depth of a loop index, `text` what a string or a name
says; the other kinds leave both alone. -/
structure Token where
  kind : Kind
  pos : Pos := {}
  text : Text := []
  num : Int32 := 0
  deriving DecidableEq, Repr

namespace Token

def shownBy (printable : Char → Bool) (t : Token) : Text :=
  match t.kind with
  | .number => Text.decimal t.num.toInt
  | .string => t.text.quotedBy printable
  | .name => t.text
  | .index => loopName t.num
  | k => k.title

def shown (t : Token) : Text := t.shownBy isPrintable

/-- Position, kind and token between tabs. -/
def lineBy (printable : Char → Bool) (t : Token) : Text :=
  t.pos.shown ++ utf8 "\t" ++ t.kind.title ++ utf8 "\t" ++ t.shownBy printable ++ utf8 "\n"

def line (t : Token) : Text := t.lineBy isPrintable

end Token
end StackLang
