import StackLang.Yaml.Lexeme

/-! Scalars as they are scanned: plain, between quotes, and as blocks of lines. -/
namespace StackLang.Yaml.Scan

def bytes (reversed : List Char) : Text := reversed.reverse.flatMap encode

/-- A scalar so far, and the blanks and line ends after it until it is known what they stand for.
All lists are newest first. -/
structure Gathered where
  value : List Char := []
  blanks : List Char := []
  broken : Bool := false
  lead : List Char := []
  trail : List Char := []

namespace Gathered

/-- One newline is a space, and further ones stand for themselves. -/
def joined (g : Gathered) : Gathered :=
  let between :=
    if !g.broken then g.blanks
    else if g.lead = ['\n'] then (if g.trail = [] then [' '] else g.trail)
    else g.trail ++ g.lead
  { value := between ++ g.value }

def add (g : Gathered) (c : Char) : Gathered := { g with value := c :: g.value }

end Gathered

/-- Takes blanks and line ends. Blanks that come after a line end are dropped; a tab among them must
not stand before the column `indent`. -/
def gather (indent : Option Int) (start : Mark) (g : Gathered) : Scan Gathered :=
  repeated g fun g => do
    let c ← char 0
    if isBlank c then
      if let some least := indent then
        if g.broken ∧ c = '\t' ∧ ((← mark).col : Int) < least then
          fail "found a tab character that violates indentation" start
      skip
      need 1
      return .inl (if g.broken then g else { g with blanks := c :: g.blanks })
    else if isBreak c then
      need 2
      let ends ← readLine
      need 1
      return .inl (if g.broken then { g with trail := ends ++ g.trail }
        else { g with blanks := [], broken := true, lead := ends })
    else return .inr g

/-- A colon before a blank ends a plain scalar, and in a flow collection any of its signs. -/
def endsPlain (inFlow : Bool) (c next : Char) : Bool :=
  (c == ':' && endsWord next) || (inFlow && ",?[]\x7b\x7d".toList.contains c)

def plainWord (inFlow : Bool) (g : Gathered) : Scan Gathered :=
  repeated g fun g => do
    let c ← char 0
    if endsWord c || endsPlain inFlow c (← char 1) then return .inr g
    else
      skip
      need 2
      return .inl (g.joined.add c)

/-- A scalar without quotes. Its lines are deeper than the block around it. A key may come after a
line end that it has passed. -/
def plainScalar : Scan Text := do
  let start ← mark
  let flow ← inFlow
  let indent := (← get).indent + 1
  let g ← repeated ({} : Gathered) fun g => do
    need 4
    if (← atMarker) || (← char 0) == '#' then return .inr g
    let g ← plainWord flow g
    let c ← char 0
    if !(isBlank c || isBreak c) then return .inr g
    need 1
    let g ← gather (some indent) start g
    if !flow && ((← mark).col : Int) < indent then return .inr g
    return .inl g
  if g.broken then allowKey true
  return bytes g.value

def escaped? (c : Char) : Option (Char ⊕ Nat) :=
  match c with
  | '0' => some (.inl '\x00')
  | 'a' => some (.inl '\x07')
  | 'b' => some (.inl '\x08')
  | 't' | '\t' => some (.inl '\t')
  | 'n' => some (.inl '\n')
  | 'v' => some (.inl '\x0b')
  | 'f' => some (.inl '\x0c')
  | 'r' => some (.inl '\r')
  | 'e' => some (.inl '\x1b')
  | ' ' | '"' | '\x27' | '\\' => some (.inl c)
  | 'N' => some (.inl (Char.ofNat 0x85))
  | '_' => some (.inl (Char.ofNat 0xA0))
  | 'L' => some (.inl (Char.ofNat 0x2028))
  | 'P' => some (.inl (Char.ofNat 0x2029))
  | 'x' => some (.inr 2)
  | 'u' => some (.inr 4)
  | 'U' => some (.inr 8)
  | _ => none

def hexCode (start : Mark) (digits : Nat) : Scan Char := do
  need digits
  let code ← (List.range digits).foldlM (fun code k => do
    match hexDigit? (← char k) with
    | some d => pure (code * 16 + d)
    | none => fail "did not find expected hexdecimal number" start) 0
  if code.isValidChar then
    skips digits
    return Char.ofNat code
  else fail "found invalid Unicode character escape code" start

def escape (start : Mark) (g : Gathered) : Scan Gathered := do
  let c ← char 1
  match escaped? c with
  | none => fail "found unknown escape character" start
  | some (.inl e) =>
    skips 2
    return g.add e
  | some (.inr digits) =>
    skips 2
    return g.add (← hexCode start digits)

def quotedWord (quote : Char) (start : Mark) (g : Gathered) : Scan Gathered :=
  repeated g fun g => do
    let c ← char 0
    let next ← char 1
    if endsWord c then return .inr g
    else if quote = '\x27' ∧ c = quote ∧ next = quote then
      skips 2
      need 2
      return .inl (g.add c)
    else if c = quote then return .inr g
    else if quote = '"' ∧ c = '\\' ∧ isBreak next then
      need 3
      skip
      skipLine
      return .inr { g with broken := true }
    else if quote = '"' ∧ c = '\\' then
      let g ← escape start g
      need 2
      return .inl g
    else
      skip
      need 2
      return .inl (g.add c)

def quotedScalar (quote : Char) : Scan Text := do
  let start ← mark
  skip
  let g ← repeated ({} : Gathered) fun g => do
    need 4
    if ← atMarker then fail "found unexpected document indicator" start
    if isEnd (← char 0) then fail "found unexpected end of stream" start
    let g ← quotedWord quote start g
    need 1
    if (← char 0) = quote then return .inr g
    return .inl (← gather none start g).joined
  skip
  return bytes g.value

/-- Line ends and indentation between the lines of a block. An `indent` of 0 is not known yet, and
becomes that of the deepest line. -/
def blockBreaks (start : Mark) (indent : Nat) : Scan (Nat × List Char) := do
  let (deepest, breaks) ← repeated ((0, []) : Nat × List Char) fun (deepest, breaks) => do
    need 1
    let _ ← repeated () fun _ => do
      if (indent = 0 ∨ (← mark).col < indent) ∧ isSpace (← char 0) then
        skip
        need 1
        return .inl ()
      else return .inr ()
    let col := (← mark).col
    let deepest := max deepest col
    let c ← char 0
    if (indent = 0 ∨ col < indent) ∧ c = '\t' then
      fail "found a tab character where an indentation space is expected" start
    if !isBreak c then return .inr (deepest, breaks)
    need 2
    let ends ← readLine
    return .inl (deepest, ends ++ breaks)
  let around := (← get).indent
  return (if indent = 0 then max (max deepest (around + 1).toNat) 1 else indent, breaks)

/-- The lines of a block that have been read, newest character first, the line end of the last one
and those after it, and whether that line starts with a blank. -/
structure BlockLines where
  value : List Char := []
  lead : List Char := []
  trail : List Char := []
  blank : Bool := false

/-- A folded block joins lines that do not start with a blank. -/
def BlockLines.before (b : BlockLines) (folded blank : Bool) : List Char :=
  let first := if folded ∧ !b.blank ∧ !blank ∧ b.lead = ['\n'] then
    (if b.trail = [] then [' '] else []) else b.lead
  b.trail ++ (first ++ b.value)

def chomping : Scan (Option Bool) := do
  let c ← char 0
  if c = '+' ∨ c = '-' then
    skip
    need 1
    return some (c = '+')
  else return none

def indentation (start : Mark) : Scan (Option Nat) := do
  let c ← char 0
  if c = '0' then fail "found an indentation indicator equal to 0" start
  else if c.isDigit then
    skip
    need 1
    return some (c.toNat - 48)
  else return none

def lineComment : Scan Unit := do
  if !(← get).onNewLine then
    let seen ← look 512 0
    if let some blanks := seen then
      skips blanks
      let _ ← repeated () fun _ => do
        need 1
        if endsLine (← char 0) then return .inr ()
        skip
        return .inl ()
where
  /-- How many blanks stand before a comment. -/
  look : Nat → Nat → Scan (Option Nat)
    | 0, _ => return none
    | fuel + 1, k => do
      if ← tryNeed (k + 1) then
        let c ← char k
        if isBlank c then look fuel (k + 1)
        else return if c = '#' then some k else none
      else return none

def blockScalar (folded : Bool) : Scan Text := do
  let start ← mark
  skip
  need 1
  let first ← chomping
  let width ← indentation start
  let keep ← if first.isSome || width.isNone then pure first else chomping
  need 1
  skipWhile isBlank
  if (← char 0) = '#' then
    lineComment
    skipWhile (!endsLine ·)
  if !endsLine (← char 0) then fail "did not find expected comment or line break" start
  if isBreak (← char 0) then
    need 2
    skipLine
  let around := (← get).indent
  let known := match width with
    | some w => if 0 ≤ around then around.toNat + w else w
    | none => 0
  let (indent, trail) ← blockBreaks start known
  need 1
  let b ← repeated ({ trail } : BlockLines) fun b => do
    let c ← char 0
    if (← mark).col ≠ indent || isEnd c then return .inr b
    let blank := isBlank c
    let value ← readWhile (!endsLine ·) (b.before folded blank)
    need 2
    let lead ← readLine
    let (_, trail) ← blockBreaks start indent
    return .inl { value, lead, trail, blank }
  return bytes <| match keep with
    | some true => b.trail ++ (b.lead ++ b.value)
    | some false => b.value
    | none => b.lead ++ b.value

end StackLang.Yaml.Scan
