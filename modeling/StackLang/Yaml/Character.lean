/-! The classes of characters that YAML tells apart. A zero stands for the end of a text. -/
namespace StackLang.Yaml

def isSpace (c : Char) : Bool := c == ' '

def isBlank (c : Char) : Bool := c == ' ' || c == '\t'

def isBreak (c : Char) : Bool :=
  let n := c.toNat
  n == 0x0A || n == 0x0D || n == 0x85 || n == 0x2028 || n == 0x2029

def isEnd (c : Char) : Bool := c == '\x00'

/-- A blank, a line end or the end. -/
def endsWord (c : Char) : Bool := isBlank c || isBreak c || isEnd c

def endsLine (c : Char) : Bool := isBreak c || isEnd c

/-- Letters of names and tags. -/
def isWordChar (c : Char) : Bool := c.isAlphanum || c == '_' || c == '-'

def hexDigit? (c : Char) : Option Nat :=
  if c.isDigit then some (c.toNat - 48)
  else if 'a' ≤ c ∧ c ≤ 'f' then some (c.toNat - 87)
  else if 'A' ≤ c ∧ c ≤ 'F' then some (c.toNat - 55)
  else none

end StackLang.Yaml
