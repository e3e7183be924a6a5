import StackLang.Yaml.Lexeme.Scalars

/-! Finding the next lexeme. Three lexemes are read before the first of them is certain, and all
that may still belong to a key that begins with it. -/
namespace StackLang.Yaml.Scan

def isWideBreak (c : Char) : Bool := isBreak c && 0x80 ≤ c.toNat

/-- How many blanks and line ends stand before a comment that goes on on a further line. Nobody
looks past a wide line end, or further than 512 characters. -/
def commentAhead : Nat → Nat → Scan (Option Nat)
  | 0, _ => return none
  | fuel + 1, k => do
    if ← tryNeed (k + 1) then
      let c ← char k
      if isWideBreak c then
        let _ ← if fuel = 0 then pure true else tryNeed (k + 2)
        return none
      else if isBlank c || isBreak c then commentAhead fuel (k + 1)
      else return if c = '#' then some k else none
    else return none

def skipComment (k : Nat) : Scan Unit := do
  let start := (← mark).index
  repeated () fun _ => do
    need 1
    let c ← char 0
    let reached := start + k ≤ (← mark).index
    if isBreak c ∧ !reached then
      need 2
      skipLine
      return .inl ()
    else if endsLine c then return .inr ()
    else
      skip
      return .inl ()

/-- Takes a comment, and those on the lines after it as long as only blank lines stand between. -/
def skipComments : Scan Unit := do
  let first ← commentAhead 512 0
  repeated first fun found => do
    match found with
    | none => return .inr ()
    | some k =>
      skipComment k
      if isWideBreak (← char 0) then
        let _ ← tryNeed 2
        return .inr ()
      return .inl (← commentAhead 511 1)

/-- Passes over blanks, comments and line ends. Tabs are blanks where no key may begin, and a line
end allows a key in a block. A mark at the start of what was read lets one character pass at the
start of a line. -/
def skipToNext : Scan Unit :=
  repeated () fun _ => do
    need 1
    let s ← get
    if s.mark.col = 0 ∧ s.feed.marked then skip
    need 1
    let tabs := s.flow ≠ 0 || !s.keyAllowed
    skipWhile fun c => c == ' ' || (tabs && c == '\t')
    if (← char 0) = '#' then skipComments
    if isBreak (← char 0) then
      need 2
      skipLine
      if !(← inFlow) then allowKey true
      return .inl ()
    else return .inr ()

def versionNumber (start : Mark) : Scan Nat := do
  need 1
  let digits ← repeated ([] : List Char) fun done => do
    let c ← char 0
    if !c.isDigit then return .inr done
    if done.length = 2 then fail "found extremely long version number" start
    skip
    need 1
    return .inl (c :: done)
  if digits = [] then fail "did not find expected version number" start
  return digits.reverse.foldl (fun n c => n * 10 + (c.toNat - 48)) 0

/-- The octets of one character, each after a percent sign. -/
def uriEscape (start : Mark) (done : Text) : Scan Text := do
  let octet : Scan UInt8 := do
    need 3
    match (← char 0) == '%', hexDigit? (← char 1), hexDigit? (← char 2) with
    | true, some a, some b => return .ofNat (a * 16 + b)
    | _, _, _ => fail "did not find URI escaped octet" start
  let first ← octet
  match lead? first with
  | none => fail "found an incorrect leading UTF-8 octet" start
  | some (length, _) =>
    skips 3
    (List.range (length - 1)).foldlM (fun done _ => do
      let b ← octet
      if b.toNat / 64 ≠ 2 then fail "found an incorrect trailing UTF-8 octet" start
      skips 3
      return b :: done) (first :: done)

def uri (start : Mark) (done : Text) : Scan Text := do
  need 1
  repeated done fun done => do
    let c ← char 0
    if c = '%' then
      let done ← uriEscape start done
      need 1
      return .inl done
    else if isWordChar c || ";/?:@&=+$,.!~*\x27()[]".toList.contains c then
      skip
      need 1
      return .inl (encode c ++ done)
    else return .inr done

def uriMissing : String := "did not find expected tag URI"

def handle (start : Mark) (closed : Bool) : Scan (List Char) := do
  need 1
  if (← char 0) ≠ '!' then fail "did not find expected '!'" start
  skip
  need 1
  let word ← readWhile isWordChar ['!']
  if (← char 0) = '!' then
    skip
    return '!' :: word
  else if closed ∧ word ≠ ['!'] then fail "did not find expected '!'" start
  else return word

def directive : Scan Lexeme := do
  let start ← mark
  skip
  need 1
  let name ← readWhile isWordChar []
  if name = [] then fail "could not find expected directive name" start
  if !endsWord (← char 0) then fail "found unexpected non-alphabetical character" start
  let found ← if name.reverse = "YAML".toList then version start
    else if name.reverse = "TAG".toList then tagPrefix start
    else fail "found unknown directive name" start
  need 1
  skipWhile isBlank
  if (← char 0) = '#' then skipWhile (!endsLine ·)
  if !endsLine (← char 0) then fail "did not find expected comment or line break" start
  if isBreak (← char 0) then
    need 2
    skipLine
  return found
where
  version (start : Mark) : Scan Lexeme := do
    need 1
    skipWhile isBlank
    let major ← versionNumber start
    if (← char 0) ≠ '.' then fail "did not find expected digit or '.' character" start
    skip
    return .version major (← versionNumber start)
  tagPrefix (start : Mark) : Scan Lexeme := do
    need 1
    skipWhile isBlank
    let name ← handle start true
    need 1
    if !isBlank (← char 0) then fail "did not find expected whitespace" start
    skipWhile isBlank
    let value ← uri start []
    if value = [] then fail uriMissing start
    need 1
    if !endsWord (← char 0) then
      fail "did not find expected whitespace or line break" start
    return .tagPrefix (bytes name) value.reverse

def name : Scan Text := do
  let start ← mark
  skip
  need 1
  let word ← readWhile isWordChar []
  let c ← char 0
  if word = [] ∨ !(endsWord c || "?:,]\x7d%@\x60".toList.contains c) then
    fail "did not find expected alphabetic or numeric character" start
  return bytes word

/-- A tag: whole between angle brackets, with a handle, or without one. -/
def tag : Scan Lexeme := do
  let start ← mark
  need 2
  let found ← if (← char 1) = '<' then
      skips 2
      let suffix ← uri start []
      if suffix = [] then fail uriMissing start
      if (← char 0) ≠ '>' then fail "did not find the expected '>'" start
      skip
      pure (Lexeme.tag [] suffix.reverse)
    else
      let word ← handle start false
      if word.length > 1 ∧ word.head? = some '!' then
        let suffix ← uri start []
        if suffix = [] then fail uriMissing start
        pure (.tag (bytes word) suffix.reverse)
      else
        let suffix ← uri start (bytes word).reverse.dropLast
        pure (if suffix = [] then .tag [] (utf8 "!") else .tag (utf8 "!") suffix.reverse)
  need 1
  if !endsWord (← char 0) then fail "did not find expected whitespace or line break" start
  return found

/-- The end of the text is the start of a line. -/
def fetchEnd : Scan Unit := do
  modify fun s =>
    if s.mark.col = 0 then s else { s with mark := { s.mark with line := s.mark.line + 1, col := 0 } }
  let line := (← mark).line
  closeBlocks (-1) line
  removeKey
  allowKey false
  emit .textEnd line

def fetchDirective : Scan Unit := do
  let line := (← mark).line
  closeBlocks (-1) line
  removeKey
  allowKey false
  emit (← directive) line

def fetchMarker (l : Lexeme) : Scan Unit := do
  closeBlocks (-1) (← mark).line
  removeKey
  allowKey false
  take l 3

def fetchFlowStart (l : Lexeme) : Scan Unit := do
  saveKey
  openFlow
  allowKey true
  take l 1

def fetchFlowEnd (l : Lexeme) : Scan Unit := do
  removeKey
  closeFlow
  allowKey false
  take l 1

def fetchComma : Scan Unit := do
  removeKey
  allowKey true
  take .comma 1

def fetchDash : Scan Unit := do
  if !(← inFlow) then
    if !(← get).keyAllowed then
      failHere "block sequence entries are not allowed in this context"
    openBlock (← mark) none .seqStart
  removeKey
  allowKey true
  take .dash 1

def fetchKey : Scan Unit := do
  let flow ← inFlow
  if !flow then
    if !(← get).keyAllowed then failHere "mapping keys are not allowed in this context"
    openBlock (← mark) none .mapStart
  removeKey
  allowKey !flow
  take .key 1

/-- A colon makes a key of what may be one; else it stands after a key with a mark of its own. -/
def fetchColon : Scan Unit := do
  let s ← get
  let level := s.keys.size - 1
  if ← keyHolds level then
    let k := s.keys.getD level {}
    insertAt k.number .key k.mark.line
    openBlock k.mark (some k.number) .mapStart
    modify fun s => { s with
      keys := s.keys.setIfInBounds level { k with possible := false }
      levels := s.levels.erase k.number
      keyAllowed := false }
  else
    let flow ← inFlow
    if !flow then
      if !(← get).keyAllowed then failHere "mapping values are not allowed in this context"
      openBlock (← mark) none .mapStart
    allowKey !flow
  take .colon 1

def fetchWord (scan : Scan Lexeme) : Scan Unit := do
  let line := (← mark).line
  saveKey
  allowKey false
  emit (← scan) line

def fetchBlockScalar (folded : Bool) : Scan Unit := do
  let line := (← mark).line
  removeKey
  allowKey true
  emit (.scalar false (← blockScalar folded)) line

/-- A sign that cannot start a plain scalar, unless what follows makes it one. -/
def startsPlain (inFlow : Bool) (c next : Char) : Bool :=
  !(endsWord c || "-?:,[]\x7b\x7d#&*!|>\x27\"%@\x60".toList.contains c) ||
    (c == '-' && !isBlank next) ||
    (!inFlow && (c == '?' || c == ':') && !endsWord next)

def fetchAt (c next : Char) : Scan Unit := do
  let flow ← inFlow
  if c = '[' then fetchFlowStart .flowSeqStart
  else if c = '\x7b' then fetchFlowStart .flowMapStart
  else if c = ']' then fetchFlowEnd .flowSeqEnd
  else if c = '\x7d' then fetchFlowEnd .flowMapEnd
  else if c = ',' then fetchComma
  else if c = '-' ∧ endsWord next then fetchDash
  else if c = '?' ∧ (flow ∨ endsWord next) then fetchKey
  else if c = ':' ∧ (flow ∨ endsWord next) then fetchColon
  else if c = '*' then fetchWord (return .reference (← name))
  else if c = '&' then fetchWord (return .anchor (← name))
  else if c = '!' then fetchWord tag
  else if c = '|' ∧ !flow then fetchBlockScalar false
  else if c = '>' ∧ !flow then fetchBlockScalar true
  else if c = '\x27' ∨ c = '"' then fetchWord (return .scalar false (← quotedScalar c))
  else if startsPlain flow c next then fetchWord (return .scalar true (← plainScalar))
  else failHere "found character that cannot start any token"

/-- Reads the next lexeme, and a comment behind it on its line. A dash alone has none. -/
def fetch : Scan Unit := do
  need 1
  if !(← get).started then
    modify fun s => { s with started := true }
    emit .textStart 0
  else
    let before := (← mark).line
    skipToNext
    closeBlocks (← mark).col before
    need 4
    let c ← char 0
    let next ← char 1
    if isEnd c then fetchEnd
    else if (← mark).col = 0 ∧ c = '%' then fetchDirective
    else if ← atMarker then fetchMarker (if c = '-' then .documentStart else .documentEnd)
    else
      fetchAt c next
      if (← get).queue.getLast?.map Placed.lexeme ≠ some .dash then lineComment

/-- Reads lexemes until the first one that waits is certain. -/
def fetchMore : Scan Unit := do
  repeated () fun _ => do
    let s ← get
    if 2 < s.queue.length then
      match s.levels[s.taken]? with
      | none => return .inr ()
      | some level =>
        if !(← keyHolds level) then return .inr ()
    fetch
    return .inl ()
  modify fun s => { s with ready := true }

def peek : Scan Placed := do
  if !(← get).ready then fetchMore
  return (← get).queue.headD ⟨.textEnd, 0⟩

def advance : Scan Unit := modify fun s =>
  { s with ready := false, taken := s.taken + 1, queue := s.queue.drop 1 }

end StackLang.Yaml.Scan
