import StackLang.Yaml.Lexeme.Fetch

/-! The structure of a YAML text, event by event: where documents, sequences and mappings start and
end, and the scalars in them. What has been opened waits in a list of states. -/
namespace StackLang.Yaml

structure Properties where
  line : Nat
  anchor : Option Text := none
  tag : Text := []
  deriving DecidableEq, Repr

inductive Event where
  | textStart | textEnd
  | documentStart | documentEnd
  | reference (line : Nat) (name : Text)
  | scalar (p : Properties) (isPlain : Bool) (value : Text)
  | seqStart (p : Properties)
  | seqEnd
  | mapStart (p : Properties)
  | mapEnd
  deriving DecidableEq, Repr

/-- What is expected next. `first` stands for the start of a collection, which is still to be
passed. -/
inductive Expecting where
  | text
  | document (first : Bool)
  | content
  | node
  | documentEnd
  | blockItem (first : Bool)
  | indentlessItem
  | blockKey (first : Bool)
  | blockValue
  | flowItem (first : Bool)
  | pairKey | pairValue | pairEnd
  | flowKey (first : Bool)
  | flowValue (absent : Bool)
  | nothing
  deriving DecidableEq, Repr

/-- `opened` are the lines where the open collections start, and `prefixes` the beginnings that
handles of tags stand for. -/
structure Parser where
  scanner : Scanner
  expecting : Expecting := .text
  waiting : List Expecting := []
  opened : List Nat := []
  prefixes : List (Text × Text) := []

abbrev Parse := EStateM Flaw Parser

namespace Parse

def onScanner {α : Type} (act : Scan α) : Parse α := fun p =>
  match act p.scanner with
  | .ok a scanner => .ok a { p with scanner }
  | .error e scanner => .error e { p with scanner }

def peek : Parse Placed := onScanner Scan.peek

def advance : Parse Unit := onScanner Scan.advance

def fail {α : Type} (problem : String) (began failed : Nat) : Parse α :=
  throw { problem := utf8 problem, began, failed }

def expect (e : Expecting) : Parse Unit := modify fun p => { p with expecting := e }

def wait (e : Expecting) : Parse Unit := modify fun p => { p with waiting := e :: p.waiting }

def resume : Parse Unit := modify fun p =>
  { p with expecting := p.waiting.headD .nothing, waiting := p.waiting.drop 1 }

def enter : Parse Unit := do
  let start ← peek
  modify fun p => { p with opened := start.line :: p.opened }
  advance

def leave : Parse Unit := modify fun p => { p with opened := p.opened.drop 1 }

def failInside {α : Type} (problem : String) (failed : Nat) : Parse α := do
  fail problem ((← get).opened.headD 0) failed

def empty (line : Nat) : Event := .scalar { line } true []

def anchor? : Parse (Option Text) := do
  match (← peek).lexeme with
  | .anchor name =>
    advance
    return some name
  | _ => return none

/-- The tag that comes next, if there is one: its line, handle and suffix. -/
def tag? : Parse (Option (Nat × Text × Text)) := do
  match ← peek with
  | ⟨.tag handle suffix, line⟩ =>
    advance
    return some (line, handle, suffix)
  | _ => return none

/-- A handle stands for the beginning that it was declared for. -/
def fullTag (start : Nat) : Option (Nat × Text × Text) → Parse Text
  | none => return []
  | some (line, handle, suffix) => do
    if handle = [] then return suffix
    let begin' := ((← get).prefixes.find? (·.1 = handle)).map (·.2)
    let whole := begin'.elim [] (· ++ suffix)
    if whole = [] then fail "found undefined tag handle" start line
    return whole

/-- Anchor and tag come in either order. A handle is looked up when what comes after is seen. -/
def properties : Parse Properties := do
  let line := (← peek).line
  let anchor ← anchor?
  let tag ← tag?
  let anchor ← if anchor.isNone ∧ tag.isSome then anchor? else pure anchor
  let _ ← peek
  return { line, anchor, tag := ← fullTag line tag }

/-- A node. Only in a block may one start a block, and only as a key or a value may a sequence
stand at the column of its mapping. -/
def node (inBlock indentless : Bool) : Parse Event := do
  match ← peek with
  | ⟨.reference name, line⟩ =>
    resume
    advance
    return .reference line name
  | _ =>
    let p ← properties
    let next ← peek
    match next.lexeme, inBlock, indentless with
    | .dash, _, true =>
      expect .indentlessItem
      return .seqStart p
    | .scalar isPlain value, _, _ =>
      resume
      advance
      return .scalar p isPlain value
    | .flowSeqStart, _, _ =>
      expect (.flowItem true)
      return .seqStart p
    | .flowMapStart, _, _ =>
      expect (.flowKey true)
      return .mapStart p
    | .seqStart, true, _ =>
      expect (.blockItem true)
      return .seqStart p
    | .mapStart, true, _ =>
      expect (.blockKey true)
      return .mapStart p
    | _, _, _ =>
      if p.anchor.isSome ∨ p.tag ≠ [] then
        resume
        return .scalar p true []
      else fail "did not find expected node content" p.line next.line

def nodeThen (e : Expecting) (inBlock indentless : Bool) : Parse Event := do
  wait e
  node inBlock indentless

def emptyThen (e : Expecting) (line : Nat) : Parse Event := do
  expect e
  return empty line

def addPrefix (allowTwice : Bool) (line : Nat) (handle start : Text) : Parse Unit := do
  if ((← get).prefixes.any (·.1 = handle)) then
    if !allowTwice then fail "found duplicate %TAG directive" 0 line
  else modify fun p => { p with prefixes := p.prefixes ++ [(handle, start)] }

def directives : Nat → Bool → Parse Unit
  | 0, _ => return
  | fuel + 1, versionSeen => do
    match ← peek with
    | ⟨.version major minor, line⟩ =>
      if versionSeen then fail "found duplicate %YAML directive" 0 line
      if major ≠ 1 ∨ minor ≠ 1 then fail "found incompatible YAML document" 0 line
      advance
      directives fuel true
    | ⟨.tagPrefix handle start, line⟩ =>
      addPrefix false line handle start
      advance
      directives fuel versionSeen
    | _ =>
      addPrefix true 0 (utf8 "!") (utf8 "!")
      addPrefix true 0 (utf8 "!!") (utf8 "tag:yaml.org,2002:")

def startsDocument : Lexeme → Bool
  | .version _ _ | .tagPrefix _ _ | .documentStart | .textEnd => true
  | _ => false

def skipEnds : Nat → Parse Unit
  | 0 => return
  | fuel + 1 => do
    if (← peek).lexeme = .documentEnd then
      advance
      skipEnds fuel

/-- The start of a document, or the end of the text. The first one needs no mark. -/
def document (first : Bool) : Parse Event := do
  let size := (← get).scanner.size
  if !first then skipEnds size
  let next ← peek
  if first ∧ !startsDocument next.lexeme then
    directives size false
    wait .documentEnd
    expect .node
    return .documentStart
  else if next.lexeme ≠ .textEnd then
    directives size false
    let next ← peek
    if next.lexeme ≠ .documentStart then
      fail "did not find expected <document start>" 0 next.line
    wait .documentEnd
    expect .content
    advance
    return .documentStart
  else
    expect .nothing
    advance
    return .textEnd

def content : Parse Event := do
  let next ← peek
  if startsDocument next.lexeme ∨ next.lexeme = .documentEnd then
    resume
    return empty next.line
  else node true false

def documentEnd : Parse Event := do
  if (← peek).lexeme = .documentEnd then advance
  modify fun p => { p with prefixes := [], expecting := .document false }
  return .documentEnd

def isKeyOrValueEnd : Lexeme → Bool
  | .key | .colon | .blockEnd => true
  | _ => false

def blockItem (first : Bool) : Parse Event := do
  if first then enter
  let next ← peek
  match next.lexeme with
  | .dash =>
    advance
    let after := (← peek).lexeme
    if after = .dash ∨ after = .blockEnd then emptyThen (.blockItem false) next.line
    else nodeThen (.blockItem false) true false
  | .blockEnd =>
    resume
    leave
    advance
    return .seqEnd
  | _ => failInside "did not find expected '-' indicator" next.line

def indentlessItem : Parse Event := do
  let next ← peek
  if next.lexeme = .dash then
    advance
    let after := (← peek).lexeme
    if after = .dash ∨ isKeyOrValueEnd after then emptyThen .indentlessItem next.line
    else nodeThen .indentlessItem true false
  else
    resume
    return .seqEnd

def blockKey (first : Bool) : Parse Event := do
  if first then enter
  let next ← peek
  match next.lexeme with
  | .key =>
    advance
    if isKeyOrValueEnd (← peek).lexeme then emptyThen .blockValue next.line
    else nodeThen .blockValue true true
  | .blockEnd =>
    resume
    leave
    advance
    return .mapEnd
  | _ => failInside "did not find expected key" next.line

def blockValue : Parse Event := do
  let next ← peek
  if next.lexeme = .colon then
    advance
    if isKeyOrValueEnd (← peek).lexeme then emptyThen (.blockKey false) next.line
    else nodeThen (.blockKey false) true true
  else emptyThen (.blockKey false) next.line

/-- The lexeme of the next entry, after the comma that all but the first need. -/
def entryStart (first : Bool) (close : Lexeme) (problem : String) : Parse Placed := do
  if first then enter
  let next ← peek
  if first ∨ next.lexeme = close then return next
  if next.lexeme ≠ .comma then failInside problem next.line
  advance
  peek

def flowItem (first : Bool) : Parse Event := do
  let next ← entryStart first .flowSeqEnd "did not find expected ',' or ']'"
  match next.lexeme with
  | .key =>
    expect .pairKey
    advance
    return .mapStart { line := next.line }
  | .flowSeqEnd =>
    resume
    leave
    advance
    return .seqEnd
  | _ => nodeThen (.flowItem false) false false

/-- The key of a pair in a sequence. Where it is missing, the lexeme in its place is passed. -/
def pairKey : Parse Event := do
  let next ← peek
  match next.lexeme with
  | .colon | .comma | .flowSeqEnd =>
    advance
    emptyThen .pairValue next.line
  | _ => nodeThen .pairValue false false

/-- The value after a key in a flow collection, which `close` ends. -/
def valueThen (e : Expecting) (close : Lexeme) : Parse Event := do
  let next ← peek
  if next.lexeme = .colon then
    advance
    let after ← peek
    if after.lexeme = .comma ∨ after.lexeme = close then emptyThen e after.line
    else nodeThen e false false
  else emptyThen e next.line

def pairEnd : Parse Event := do
  let _ ← peek
  expect (.flowItem false)
  return .mapEnd

def flowKey (first : Bool) : Parse Event := do
  let next ← entryStart first .flowMapEnd "did not find expected ',' or '\x7d'"
  match next.lexeme with
  | .key =>
    advance
    let after ← peek
    match after.lexeme with
    | .colon | .comma | .flowMapEnd => emptyThen (.flowValue false) after.line
    | _ => nodeThen (.flowValue false) false false
  | .flowMapEnd =>
    resume
    leave
    advance
    return .mapEnd
  | _ => nodeThen (.flowValue true) false false

def flowValue (absent : Bool) : Parse Event := do
  if absent then emptyThen (.flowKey false) (← peek).line
  else valueThen (.flowKey false) .flowMapEnd

def step : Parse Event := do
  match (← get).expecting with
  | .text =>
    let _ ← peek
    expect (.document true)
    advance
    return .textStart
  | .document first => document first
  | .content => content
  | .node => node true false
  | .documentEnd => documentEnd
  | .blockItem first => blockItem first
  | .indentlessItem => indentlessItem
  | .blockKey first => blockKey first
  | .blockValue => blockValue
  | .flowItem first => flowItem first
  | .pairKey => pairKey
  | .pairValue => valueThen .pairEnd .flowSeqEnd
  | .pairEnd => pairEnd
  | .flowKey first => flowKey first
  | .flowValue absent => flowValue absent
  | .nothing => return .textEnd

/-- The next event. A flaw that was met looking ahead counts once the event is there. -/
def next : Parse Event := do
  let e ← step
  match (← get).scanner.late with
  | some flaw => throw flaw
  | none => return e

end Parse
end StackLang.Yaml
