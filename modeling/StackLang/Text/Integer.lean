import StackLang.Text

/-! Integers as people write them: decimal, or with a prefix that names the base (`0x`, `0b`,
`0o`, or a leading zero for octal). Reading goes from left to right and reports what it meets
first. -/
namespace StackLang

inductive Reading (α : Type) where
  | value (n : α)
  | malformed
  | tooLarge
  deriving DecidableEq, Repr

namespace Integer

/-- Numbers of 64 bits lie from `-half` up to below `half`, and without a sign below twice that. -/
def half : Nat := 0x8000000000000000

def lower (b : UInt8) : UInt8 := if 65 ≤ b ∧ b ≤ 90 then b + 32 else b

def digit? (base : Nat) (b : UInt8) : Option Nat :=
  let n := (lower b).toNat
  let d := if 48 ≤ n ∧ n ≤ 57 then some (n - 48)
    else if 97 ≤ n ∧ n ≤ 122 then some (n - 87)
    else none
  d.filter (· < base)

/-- Digits after the value `n`; underscores are passed over if `gaps` allows them. -/
def digits (base : Nat) (gaps : Bool) : Nat → Text → Reading Nat
  | n, [] => .value n
  | n, b :: rest =>
    if gaps ∧ b = 0x5F then digits base gaps n rest
    else match digit? base b with
      | none => .malformed
      | some d =>
        let n := n * base + d
        if n < 2 * half then digits base gaps n rest else .tooLarge

/-- The base that a numeral's first characters name, and its digits. -/
def base (t : Text) : Nat × Text :=
  match t with
  | 0x30 :: p :: d :: rest =>
    match lower p with
    | 0x62 => (2, d :: rest)
    | 0x6F => (8, d :: rest)
    | 0x78 => (16, d :: rest)
    | _ => (8, p :: d :: rest)
  | 0x30 :: rest => (8, rest)
  | _ => (10, t)

/-- An underscore stands between two digits, or between the base and a digit. -/
def gapsFit (hexadecimal afterDigit afterGap : Bool) : Text → Bool
  | [] => !afterGap
  | b :: rest =>
    if (digit? (if hexadecimal then 16 else 10) b).isSome then gapsFit hexadecimal true false rest
    else if b = 0x5F then afterDigit && gapsFit hexadecimal false true rest
    else !afterGap && gapsFit hexadecimal false false rest

def gapsAllowed (t : Text) : Bool :=
  match t with
  | 0x30 :: p :: rest =>
    if lower p = 0x62 ∨ lower p = 0x6F ∨ lower p = 0x78 then
      gapsFit (lower p = 0x78) true false rest
    else gapsFit false false false t
  | _ => gapsFit false false false t

def unsigned (t : Text) : Reading Nat :=
  if t = [] then .malformed
  else
    let (b, ds) := base t
    match digits b true 0 ds with
    | .value n => if ds.contains 0x5F ∧ !gapsAllowed t then .malformed else .value n
    | r => r

def sign : Text → Bool × Text
  | 0x2B :: rest => (false, rest)
  | 0x2D :: rest => (true, rest)
  | t => (false, t)

def ofSize (negative : Bool) : Reading Nat → Reading Int
  | .value n =>
    if negative then (if n ≤ half then .value (-n) else .tooLarge)
    else if n < half then .value n
    else .tooLarge
  | .malformed => .malformed
  | .tooLarge => .tooLarge

def signed (t : Text) : Reading Int :=
  let (negative, size) := sign t
  ofSize negative (unsigned size)

def signedIn (b : Nat) (t : Text) : Reading Int :=
  let (negative, size) := sign t
  if size = [] then .malformed else ofSize negative (digits b false 0 size)

end Integer
end StackLang
