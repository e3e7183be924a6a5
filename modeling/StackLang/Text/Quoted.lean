import StackLang.Text.Glyph
import StackLang.Text.Printable

/-! Quoted text: one line of printable characters for any bytes. A stray byte is written by its
value, so it never reads as the replacement character. -/
namespace StackLang
namespace Quoted

def letter? (c : Char) : Option Char :=
  match c.toNat with
  | 7 => some 'a'
  | 8 => some 'b'
  | 9 => some 't'
  | 10 => some 'n'
  | 11 => some 'v'
  | 12 => some 'f'
  | 13 => some 'r'
  | _ => none

def character (printable : Char → Bool) (quote c : Char) : Text :=
  if c = quote ∨ c = '\\' then 0x5C :: encode c
  else if printable c then encode c
  else match letter? c with
    | some l => 0x5C :: encode l
    | none =>
      if c.toNat < 0x20 ∨ c.toNat = 0x7F then utf8 "\\x" ++ Text.hex 2 c.toNat
      else if c.toNat < 0x10000 then utf8 "\\u" ++ Text.hex 4 c.toNat
      else utf8 "\\U" ++ Text.hex 8 c.toNat

def glyph (printable : Char → Bool) (quote : Char) : Glyph → Text
  | .char c => character printable quote c
  | .stray b => utf8 "\\x" ++ Text.hex 2 b.toNat

end Quoted

/-- Text between double quotes, with the characters `printable` allows shown as they are. -/
def Text.quotedBy (printable : Char → Bool) (t : Text) : Text :=
  0x22 :: t.glyphs.flatMap (Quoted.glyph printable '"') ++ [0x22]

def Text.quoted (t : Text) : Text := t.quotedBy isPrintable

/-- One character between single quotes; a stray byte is quoted as it is shown. -/
def Glyph.quoted (g : Glyph) : Text :=
  0x27 :: Quoted.character isPrintable '\x27' g.shown ++ [0x27]

end StackLang
