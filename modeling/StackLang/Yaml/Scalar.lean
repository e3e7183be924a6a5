import StackLang.Text.Integer

/-! What a YAML scalar stands for: its tag says how to read it, and one without quotes or a tag is
what it looks like. -/
namespace StackLang.Yaml

inductive Tag where
  | null | bool | int | float | timestamp | merge | str | binary | seq | map
  deriving DecidableEq, Repr

def Tag.name : Tag → Text
  | null => utf8 "!!null"
  | bool => utf8 "!!bool"
  | int => utf8 "!!int"
  | float => utf8 "!!float"
  | timestamp => utf8 "!!timestamp"
  | merge => utf8 "!!merge"
  | str => utf8 "!!str"
  | binary => utf8 "!!binary"
  | seq => utf8 "!!seq"
  | map => utf8 "!!map"

def shortTag (t : Text) : Text :=
  let start := utf8 "tag:yaml.org,2002:"
  if t.take start.length = start then utf8 "!!" ++ t.drop start.length else t

/-- The value of a scalar. Of a float only the integer that it is cut to is kept, and only where
it is at most 2^63. -/
inductive Value where
  | null
  | bool (b : Bool)
  | int (n : Int)
  | float (cut : Option Int)
  | timestamp
  | str (t : Text)
  deriving DecidableEq, Repr

def Value.tag : Value → Tag
  | null => .null
  | bool _ => .bool
  | int _ => .int
  | float _ => .float
  | timestamp => .timestamp
  | str _ => .str

def isDigit (b : UInt8) : Bool := 48 ≤ b && b ≤ 57

def natural (t : Text) : Nat := t.foldl (fun n b => n * 10 + (b.toNat - 48)) 0

namespace Timestamp

def field? (limit : Nat) (t : Text) : Option (Nat × Text) :=
  let ds := (t.take 2).takeWhile isDigit
  if ds = [] ∨ limit ≤ natural ds then none else some (natural ds, t.drop ds.length)

def after? (b : UInt8) : Text → Option Text
  | c :: rest => if c = b then some rest else none
  | [] => none

def daysIn (year month : Nat) : Nat :=
  if month = 2 then
    if year % 4 = 0 ∧ (year % 100 ≠ 0 ∨ year % 400 = 0) then 29 else 28
  else if month = 4 ∨ month = 6 ∨ month = 9 ∨ month = 11 then 30
  else 31

def date? (t : Text) : Option Text := do
  let year := t.takeWhile isDigit
  if year.length ≠ 4 then none
  else
    let (month, t) ← field? 13 (← after? 0x2D (t.drop 4))
    let (day, t) ← field? 32 (← after? 0x2D t)
    if month = 0 ∨ day = 0 ∨ daysIn (natural year) month < day then none else some t

def clock? (t : Text) : Option Text := do
  let (_, t) ← field? 24 t
  let (_, t) ← field? 60 (← after? 0x3A t)
  let (_, t) ← field? 60 (← after? 0x3A t)
  match t with
  | mark :: d :: rest =>
    if (mark = 0x2E ∨ mark = 0x2C) ∧ isDigit d then some (rest.dropWhile isDigit) else some t
  | _ => some t

/-- An offset may be as large as 24 hours, and its minutes as large as 60. -/
def zone : Text → Bool
  | [0x5A] => true
  | s :: h :: h' :: 0x3A :: m :: m' :: [] =>
    (s = 0x2B || s = 0x2D) && [h, h', m, m'].all isDigit && natural [h, h'] ≤ 24 &&
      natural [m, m'] ≤ 60
  | _ => false

end Timestamp

open Timestamp in
/-- A date, alone or with a time: behind a letter with its zone, or behind spaces without one. -/
def isTimestamp (t : Text) : Bool :=
  match date? t with
  | none => false
  | some [] => true
  | some (mark :: rest) =>
    if mark = 0x54 ∨ mark = 0x74 then (clock? rest).any zone
    else mark = 0x20 && (clock? (rest.dropWhile (· = 0x20))).any List.isEmpty

/-- Digits with an optional fraction and exponent, as `m * 10 ^ e`. -/
def decimal? (t : Text) : Option (Bool × Nat × Int) :=
  let (negative, t) := Integer.sign t
  let whole := t.takeWhile isDigit
  let t := t.drop whole.length
  let (fraction, t) := match t with
    | 0x2E :: rest => (rest.takeWhile isDigit, rest.dropWhile isDigit)
    | _ => ([], t)
  let mantissa := natural (whole ++ fraction)
  if whole = [] ∧ fraction = [] then none
  else match t with
    | [] => some (negative, mantissa, -fraction.length)
    | e :: rest =>
      let (down, ds) := Integer.sign rest
      if (e = 0x65 ∨ e = 0x45) ∧ ds ≠ [] ∧ ds.all isDigit then
        let n : Int := natural ds
        some (negative, mantissa, (if down then -n else n) - fraction.length)
      else none

/-- Rounds `num / den` to 53 significant bits, a tie to the even neighbour, and cuts the result to
an integer. Below 2^53 there is room for a fraction, which only matters if it rounds up. -/
def roundedCut (num den : Nat) : Nat :=
  let whole := num / den
  let bits := if whole = 0 then 0 else whole.log2 + 1
  let shift : Int := (bits : Int) - 53
  let (unitNum, unitDen) := if 0 ≤ shift then (Nat.pow 2 shift.toNat, 1)
    else (1, Nat.pow 2 (-shift).toNat)
  let q := num * unitDen / (den * unitNum)
  let r := num * unitDen % (den * unitNum)
  let up := den * unitNum < 2 * r ∨ (2 * r = den * unitNum ∧ q % 2 = 1)
  (if up then q + 1 else q) * unitNum / unitDen

/-- The integer that a rounded value is cut to. Below the range of 64 bits, and at 2^63 itself,
stands the smallest of that range. -/
def cut (negative : Bool) (n : Nat) : Option Int :=
  if negative then some (max (-Integer.half) (-n))
  else if n < Integer.half then some n
  else if n = Integer.half then some (-Integer.half)
  else none

/-- A decimal that rounds beyond the largest float is none. -/
def float? (t : Text) : Option Value :=
  (decimal? t).bind fun (negative, mantissa, exponent) =>
    let size := exponent + (Text.decimal mantissa).length
    if mantissa = 0 ∨ size < -1 then some (.float (some 0))
    else if 310 < size then none
    else
      let (num, den) := if 0 ≤ exponent then (mantissa * Nat.pow 10 exponent.toNat, 1)
        else (mantissa, Nat.pow 10 (-exponent).toNat)
      if (Nat.pow 2 1024 - Nat.pow 2 970) * den ≤ num then none
      else some (.float (cut negative (roundedCut num den)))

def number? (t : Text) : Option Value :=
  let plain := t.filter (· ≠ 0x5F)
  match Integer.signed plain, Integer.unsigned plain with
  | .value n, _ => some (.int n)
  | _, .value n => some (.int n)
  | _, _ =>
    match float? plain with
    | some v => some v
    | none =>
      let rest := plain.drop 2
      let read := if plain.take 2 = utf8 "0b" then Integer.signedIn 2 rest
        else if plain.take 2 = utf8 "0o" then Integer.signedIn 8 rest
        else .malformed
      match read with
      | .value n => some (.int n)
      | _ => none

def words : List (Value × List String) :=
  [(.bool true, ["true", "True", "TRUE"]),
    (.bool false, ["false", "False", "FALSE"]),
    (.null, ["", "~", "null", "Null", "NULL"]),
    (.float none, [".nan", ".NaN", ".NAN", ".inf", ".Inf", ".INF", "+.inf", "+.Inf", "+.INF"]),
    (.float (some (-Integer.half)), ["-.inf", "-.Inf", "-.INF"])]

/-- A number that starts with a point may have underscores between its digits. -/
def pointFloat? (t : Text) : Option Value :=
  if t.contains 0x5F ∧ !Integer.gapsFit false false false t then none
  else float? (t.filter (· ≠ 0x5F))

def resolveWith (dates : Bool) (t : Text) : Value :=
  match words.find? fun (_, spellings) => spellings.any fun s => utf8 s = t with
  | some (v, _) => v
  | none =>
    match t with
    | [] => .null
    | b :: _ =>
      if b = 0x2E then (pointFloat? t).getD (.str t)
      else if isDigit b ∨ b = 0x2B ∨ b = 0x2D then
        if dates && isTimestamp t then .timestamp else (number? t).getD (.str t)
      else .str t

def resolve (t : Text) : Value := resolveWith true t

def plainTag (t : Text) : Text :=
  if t = utf8 "<<" then Tag.merge.name else (resolve t).tag.name

def sextet? (b : UInt8) : Option Nat :=
  let n := b.toNat
  if 65 ≤ n ∧ n ≤ 90 then some (n - 65)
  else if 97 ≤ n ∧ n ≤ 122 then some (n - 71)
  else if isDigit b then some (n + 4)
  else if b = 0x2B then some 62
  else if b = 0x2F then some 63
  else none

/-- Four digits in base 64 are three bytes; equals signs fill up the last four. -/
def base64? : Text → Option Text
  | [] => some []
  | [a, b, 0x3D, 0x3D] => do
    let n := (← sextet? a) * 64 + (← sextet? b)
    return [.ofNat (n / 16)]
  | [a, b, c, 0x3D] => do
    let n := ((← sextet? a) * 64 + (← sextet? b)) * 64 + (← sextet? c)
    return [.ofNat (n / 1024), .ofNat (n / 4)]
  | a :: b :: c :: d :: rest => do
    let n := (((← sextet? a) * 64 + (← sextet? b)) * 64 + (← sextet? c)) * 64 + (← sextet? d)
    return .ofNat (n / 65536) :: .ofNat (n / 256) :: .ofNat n :: (← base64? rest)
  | _ => none

def Value.ofInt (n : Int) : Value := .float (cut (n < 0) (roundedCut n.natAbs 1))

/-- The value of a scalar with a tag, or why it has none. A tag of somebody else's makes it a
string. -/
def valueAs (tag t : Text) : Except Text Value :=
  if tag = Tag.str.name then .ok (.str t)
  else if tag = Tag.binary.name then
    match base64? (t.filter fun b => b ≠ 0x0A ∧ b ≠ 0x0D) with
    | some data => .ok (.str data)
    | none => .error (utf8 "!!binary value contains invalid base64 data")
  else if [Tag.null, .bool, .int, .float, .timestamp].any fun known => known.name = tag then
    match resolveWith (tag = Tag.timestamp.name) t with
    | .int n =>
      if tag = Tag.int.name then .ok (.int n)
      else if tag = Tag.float.name ∧ n < Integer.half then .ok (.ofInt n)
      else .error (mismatch .int)
    | v => if v.tag.name = tag then .ok v else .error (mismatch v.tag)
  else .ok (.str t)
where
  mismatch (found : Tag) : Text :=
    utf8 "cannot decode " ++ found.name ++ utf8 " \x60" ++ t ++ utf8 "\x60 as a " ++ tag

end StackLang.Yaml
