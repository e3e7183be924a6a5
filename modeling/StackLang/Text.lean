/-! Text as the bytes it is made of, and the numerals written in it. -/
namespace StackLang

/-- Program text, names and output are bytes: nothing says that they are valid UTF-8. -/
abbrev Text := List UInt8

def encode (c : Char) : Text :=
  let n := c.toNat
  if n < 0x80 then [.ofNat n]
  else if n < 0x800 then [.ofNat (0xC0 + n / 64), .ofNat (0x80 + n % 64)]
  else if n < 0x10000 then
    [.ofNat (0xE0 + n / 4096), .ofNat (0x80 + n / 64 % 64), .ofNat (0x80 + n % 64)]
  else
    [.ofNat (0xF0 + n / 262144), .ofNat (0x80 + n / 4096 % 64), .ofNat (0x80 + n / 64 % 64),
      .ofNat (0x80 + n % 64)]

def utf8 (s : String) : Text := s.toList.flatMap encode

namespace Text

def newline : UInt8 := 0x0A
def space : UInt8 := 0x20

def digit (n : Nat) : UInt8 := if n < 10 then .ofNat (48 + n) else .ofNat (87 + n)

/-- The numeral of `n` in base `b + 2`, without leading zeros. -/
def numeral (b n : Nat) : Text :=
  if n < b + 2 then [digit n] else numeral b (n / (b + 2)) ++ [digit (n % (b + 2))]
termination_by n
decreasing_by exact Nat.div_lt_self (by omega) (by omega)

def decimal : Int → Text
  | .ofNat n => numeral 8 n
  | .negSucc n => 0x2D :: numeral 8 (n + 1)

/-- Hexadecimal text, filled with zeros up to `width`. -/
def hex (width n : Nat) : Text :=
  let t := numeral 14 n
  List.replicate (width - t.length) 48 ++ t

def upper (t : Text) : Text := t.map fun b => if 97 ≤ b ∧ b ≤ 122 then b - 32 else b

def join (sep : Text) : List Text → Text
  | [] => []
  | t :: ts => t ++ ts.flatMap (sep ++ ·)

end Text
end StackLang
