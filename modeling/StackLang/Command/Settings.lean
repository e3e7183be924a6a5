import StackLang.Command.Files
import StackLang.Text.Quoted
import StackLang.Yaml.Part

/-! The settings of the command line, and the file that they can be read from. -/
namespace StackLang

structure Settings where
  trace : Bool := false
  dumpTokens : Bool := false
  dumpTree : Bool := false
  dumpState : Bool := false
  newline : Text := utf8 "auto"
  maxCallDepth : Int := 0
  deriving DecidableEq, Repr

inductive Change where
  | trace (on : Bool)
  | dumpTokens (on : Bool)
  | dumpTree (on : Bool)
  | dumpState (on : Bool)
  | newline (mode : Text)
  | maxCallDepth (depth : Int)
  deriving DecidableEq, Repr

namespace Settings

def apply (s : Settings) : Change → Settings
  | .trace on => { s with trace := on }
  | .dumpTokens on => { s with dumpTokens := on }
  | .dumpTree on => { s with dumpTree := on }
  | .dumpState on => { s with dumpState := on }
  | .newline mode => { s with newline := mode }
  | .maxCallDepth depth => { s with maxCallDepth := depth }

def applyAll (s : Settings) (changes : List Change) : Settings := changes.foldl apply s

def check (s : Settings) : Option Failure :=
  if [utf8 "auto", utf8 "always", utf8 "never"].contains s.newline then none
  else some (.plain (utf8 "invalid newline mode " ++ s.newline.quoted ++
    utf8 ", want auto, always or never"))

def endsOutput (s : Settings) (terminal : Bool) : Bool :=
  s.newline = utf8 "always" || (s.newline = utf8 "auto" && terminal)

end Settings

namespace Settings.File

open Yaml (Part Value Tag Document)

def truths : List String := ["y", "Y", "yes", "Yes", "YES", "on", "On", "ON"]
def falsehoods : List String := ["n", "N", "no", "No", "NO", "off", "Off", "OFF"]

def spells (words : List String) (t : Text) : Bool := words.any fun w => utf8 w = t

/-- A truth value; words for it that YAML takes for strings are understood too. -/
def bool? : Value → Option Bool
  | .bool b => some b
  | .str t => if spells truths t then some true else if spells falsehoods t then some false else none
  | _ => none

/-- An integer of 64 bits; a float is cut to one. -/
def int? : Value → Option Int
  | .int n => if n < Integer.half then some n else none
  | .float cut => cut
  | _ => none

inductive Field where
  | toggle (change : Bool → Change)
  | text (change : Text → Change)
  | number (change : Int → Change)

def Field.type : Field → String
  | toggle _ => "bool"
  | text _ => "string"
  | number _ => "int"

/-- The change that a value makes; a text is taken as it is written, unless it is a string. -/
def Field.change? (f : Field) (v : Value) (written : Text) : Option Change :=
  match f, v with
  | toggle change, v => (bool? v).map change
  | text change, .str t => some (change t)
  | text change, _ => some (change written)
  | number change, v => (int? v).map change

def fields : List (String × Field) :=
  [("trace", .toggle .trace), ("dump_tokens", .toggle .dumpTokens), ("dump_ast", .toggle .dumpTree),
    ("dump_state", .toggle .dumpState), ("newline", .text .newline),
    ("max_call_depth", .number .maxCallDepth)]

def field? (name : Text) : Option Field :=
  (fields.find? fun (f : String × Field) => utf8 f.1 = name).map Prod.snd

/-- The changes and the lines so far, newest first: what is wrong with a file is collected, and
reading goes on; only a few things end it. `reads` counts the parts that were read, and
`aliased` those of them that an alias led to. -/
structure Progress where
  changes : List Change := []
  lines : List Text := []
  reads : Nat := 0
  aliased : Nat := 0

abbrev Action := EStateM Failure Progress

def note (line : Text) : Action Unit := modify fun s => { s with lines := line :: s.lines }

def fail {α : Type} (problem : Text) : Action α := throw (.plain (utf8 "yaml: " ++ problem))

/-- Too much of a document comes from aliases: 99 parts of 100 in a small one, and from 400000 parts
on less and less, down to 10 of 100. -/
def Progress.isExcessive (s : Progress) : Bool :=
  let extra := min (s.reads - 400000) 3600000
  100 < s.aliased && 1000 < s.reads &&
    (99 * 3600000 - 89 * extra) * s.reads < 100 * 3600000 * s.aliased

/-- Counts a part that is about to be read; `inside` says that an alias has led there. -/
def count (inside : Bool) : Action Unit := do
  modify fun s => { s with reads := s.reads + 1, aliased := s.aliased + inside.toNat }
  if (← get).isExcessive then fail (utf8 "document contains excessive aliasing")

def lineOf (p : Part) : Text := utf8 "line " ++ Text.decimal p.line ++ utf8 ": "

def misfit (p : Part) (type : String) : Action Unit :=
  let tag := p.tagName
  let shown := if tag = Tag.seq.name ∨ tag = Tag.map.name then p.text
    else
      utf8 " \x60" ++ (if 10 < p.text.length then p.text.take 7 ++ utf8 "..." else p.text) ++
        utf8 "\x60"
  note (lineOf p ++ utf8 "cannot unmarshal " ++ tag ++ shown ++ utf8 " into " ++ utf8 type)

def sameKey : Part → Part → Bool
  | .scalar _ _ _ s, .scalar _ _ _ t => s == t
  | .seq _ _ _, .seq _ _ _ | .map _ _ _, .map _ _ _ => true
  | .reference _ s _ _, .reference _ t _ _ => s == t
  | _, _ => false

def repeated : List (Part × Part) → List Text
  | [] => []
  | (key, _) :: rest =>
    (rest.filterMap fun (other, _) =>
      if sameKey key other then
        some (lineOf other ++ utf8 "mapping key " ++ other.text.quoted ++
          utf8 " already defined at line " ++ Text.decimal key.line)
      else none) ++ repeated rest

/-- Notes the keys of a mapping that are there twice, and tells whether there are none. -/
def areUnique (entries : List (Part × Part)) : Action Bool := do
  let lines := repeated entries
  lines.forM note
  return lines.isEmpty

def scalarValue (tag : Option Text) (isPlain : Bool) (t : Text) : Action Value :=
  match tag with
  | some tag =>
    match Yaml.valueAs tag t with
    | .ok v => return v
    | .error problem => fail problem
  | none => return if isPlain ∧ t ≠ utf8 "<<" then Yaml.resolve t else .str t

def target (d : Document) (inside : Bool) (p : Part) : Action Part := do
  count inside
  match p with
  | .reference line name number target =>
    count true
    return (d.part? target).getD (.reference line name number target)
  | p => return p

def value (d : Document) (inside : Bool) (f : Field) (p : Part) : Action Unit := do
  match ← target d inside p with
  | .scalar line tag isPlain t =>
    match ← scalarValue tag isPlain t with
    | .null => return
    | v =>
      match f.change? v t with
      | some c => modify fun s => { s with changes := c :: s.changes }
      | none => misfit (.scalar line tag isPlain t) f.type
  | .map line tag entries =>
    if ← areUnique entries then misfit (.map line tag entries) f.type
  | p => misfit p f.type

def keyName (d : Document) (inside : Bool) (key : Part) : Action (Option Text) := do
  match ← target d inside key with
  | .scalar _ tag isPlain t =>
    match ← scalarValue tag isPlain t with
    | .null => return none
    | .str s => return some s
    | _ => return some t
  | .map line tag entries =>
    if ← areUnique entries then misfit (.map line tag entries) "string"
    return none
  | p =>
    misfit p "string"
    return none

def isMerge (key : Part) : Bool := key.text = utf8 "<<" && key.tagName = Tag.merge.name

def stringKeys (d : Document) (inside : Bool) (entries : List (Part × Part)) :
    Action (List Text) := do
  let found ← entries.mapM fun (key, _) => do
    match ← target d inside key with
    | .scalar _ tag isPlain t =>
      match ← scalarValue tag isPlain t with
      | .str s => return some s
      | _ => return none
    | .map _ _ entries =>
      let _ ← areUnique entries
      return none
    | _ => return none
  return found.filterMap id

/-- Reads the entries of a mapping in order. `merged` are the names that a merge must not set again,
and `done` those that have been set here. -/
def entries (d : Document) (inside : Bool) (merged : Option (List Text)) (done : List Text) :
    List (Part × Part) → Action (Option (List Text))
  | [] => return merged
  | (key, p) :: rest => do
    if isMerge key then entries d inside merged done rest
    else match ← keyName d inside key with
      | none => entries d inside merged done rest
      | some name =>
        if (merged.getD []).contains name then entries d inside merged done rest
        else
          let merged := merged.map (name :: ·)
          match field? name with
          | none =>
            note (lineOf key ++ utf8 "field " ++ name ++ utf8 " not found in type main.Config")
            entries d inside merged done rest
          | some f =>
            if done.contains name then
              note (lineOf key ++ utf8 "field " ++ name ++ utf8 " already set in type main.Config")
            else value d inside f p
            entries d inside merged (name :: done) rest

def notMap : Text := utf8 "map merge requires map or sequence of maps as the value"

mutual

/-- Reads a mapping, and then what it merges in, which does not override what is there. An alias
that is being read must not come up again in `visiting`. -/
def mapping (d : Document) (fuel : Nat) (visiting : List Nat) (merged : Option (List Text))
    (pairs : List (Part × Part)) : Action (Option (List Text)) := do
  let inside := !visiting.isEmpty
  count inside
  if !(← areUnique pairs) then return merged
  let after ← entries d inside merged [] pairs
  match fuel, pairs.findRev? fun (key, _) => isMerge key with
  | fuel + 1, some (_, source) =>
    let known ← match after with
      | some names => pure names
      | none => stringKeys d inside pairs
    let known ← match source with
      | .seq _ _ items => sources d fuel visiting known items
      | p => merge d fuel visiting known p
    return after.map fun _ => known
  | _, _ => return after

def merge (d : Document) (fuel : Nat) (visiting : List Nat) (known : List Text) (p : Part) :
    Action (List Text) := do
  match fuel, p with
  | fuel + 1, .map _ _ pairs => return (← mapping d fuel visiting (some known) pairs).getD known
  | fuel + 1, .reference _ name number target =>
    match d.part? target with
    | some (.map _ _ pairs) =>
      count !visiting.isEmpty
      if visiting.contains number then
        fail (utf8 "anchor '" ++ name ++ utf8 "' value contains itself")
      return (← mapping d fuel (number :: visiting) (some known) pairs).getD known
    | _ => fail notMap
  | _, _ => fail notMap

def sources (d : Document) (fuel : Nat) (visiting : List Nat) (known : List Text)
    (items : List Part) : Action (List Text) := do
  match fuel, items with
  | _, [] => return known
  | fuel + 1, p :: rest =>
    let known ← merge d fuel visiting known p
    sources d fuel visiting known rest
  | 0, _ => return known

end

def settings (d : Document) (fuel : Nat) : Action Unit := do
  count false
  match d.root with
  | .map _ _ pairs =>
    let _ ← mapping d fuel [] none pairs
  | .scalar line tag isPlain t =>
    match ← scalarValue tag isPlain t with
    | .null => return
    | _ => misfit (.scalar line tag isPlain t) "main.Config"
  | p => misfit p "main.Config"

/-- The changes that a text makes, and what is wrong with it. Merges nest no deeper than the text
is long, once for each alias. -/
def read (t : Text) : List Change × Option Failure :=
  match Yaml.read t with
  | .error flaw => ([], some (.plain flaw.message))
  | .ok none => ([], none)
  | .ok (some d) =>
    match settings d (4 * (t.length + 1) * (t.length + 1)) {} with
    | .error f s => (s.changes.reverse, some f)
    | .ok _ s =>
      (s.changes.reverse, if s.lines = [] then none
        else some (.plain (utf8 "yaml: unmarshal errors:\n  " ++
          Text.join (utf8 "\n  ") s.lines.reverse)))

end Settings.File

/-- The settings of a file, over the defaults. What could be read is kept beside a failure. -/
def Settings.load (fs : Files) (path : Text) : Settings × Option Failure :=
  match fs.open path with
  | .error f => ({}, some f)
  | .ok text =>
    let (changes, failure) := Settings.File.read text
    let s := Settings.applyAll {} changes
    match failure with
    | some f => (s, some (.labelled (utf8 "config " ++ path) f))
    | none => (s, s.check)

end StackLang
