import StackLang.Command.Settings
import StackLang.Text.Integer

/-! The arguments of the command line. -/
namespace StackLang

inductive FlagError where
  | help
  | malformed (arg : Text)
  | undefined (name : Text)
  | needsValue (name : Text)
  | notBool (name value : Text)
  | notInt (name value : Text) (tooLarge : Bool)
  deriving DecidableEq, Repr

def FlagError.message : FlagError → Text
  | help => utf8 "flag: help requested"
  | malformed arg => utf8 "bad flag syntax: " ++ arg
  | undefined name => utf8 "flag provided but not defined: -" ++ name
  | needsValue name => utf8 "flag needs an argument: -" ++ name
  | notBool name value =>
    utf8 "invalid boolean value " ++ value.quoted ++ utf8 " for -" ++ name ++ utf8 ": parse error"
  | notInt name value tooLarge =>
    utf8 "invalid value " ++ value.quoted ++ utf8 " for flag -" ++ name ++
      if tooLarge then utf8 ": value out of range" else utf8 ": parse error"

inductive FlagValue where
  | config (path : Text)
  | change (c : Change)
  deriving DecidableEq, Repr

inductive FlagKind where
  | toggle (set : Bool → Change)
  | text (set : Text → FlagValue)
  | int (set : Int → Change)

def flagKinds : List (String × FlagKind) :=
  [("config", .text .config), ("dump-ast", .toggle .dumpTree), ("dump-state", .toggle .dumpState),
    ("dump-tokens", .toggle .dumpTokens), ("max-call-depth", .int .maxCallDepth),
    ("newline", .text fun t => .change (.newline t)), ("trace", .toggle .trace)]

def flagKind? (name : Text) : Option FlagKind :=
  (flagKinds.find? fun (k : String × FlagKind) => utf8 k.1 = name).map Prod.snd

namespace Flags

def bool? (t : Text) : Option Bool :=
  if ["1", "t", "T", "TRUE", "true", "True"].any fun s => utf8 s = t then some true
  else if ["0", "f", "F", "FALSE", "false", "False"].any fun s => utf8 s = t then some false
  else none

/-- An integer, or what is kept of one that is refused: 0, or the limit that it is beyond. -/
def int (t : Text) : Except (Int × Bool) Int :=
  match Integer.signed t with
  | .value n => .ok n
  | .malformed => .error (0, false)
  | .tooLarge => .error (if t.head? = some 0x2D then -Integer.half else Integer.half - 1, true)

structure Parsed where
  values : List FlagValue := []
  rest : List Text := []
  error : Option FlagError := none
  deriving DecidableEq, Repr

def split (body : Text) : Text × Option Text :=
  match body with
  | [] => ([], none)
  | b :: bs =>
    let name := b :: bs.takeWhile (· ≠ 0x3D)
    match bs.dropWhile (· ≠ 0x3D) with
    | [] => (name, none)
    | _ :: value => (name, some value)

/-- The flag that an argument is: its text after the dashes. A single dash is no flag. -/
def body? : Text → Option Text
  | 0x2D :: 0x2D :: rest => some rest
  | 0x2D :: b :: rest => some (b :: rest)
  | _ => none

def Parsed.after (v : FlagValue) (p : Parsed) : Parsed := { p with values := v :: p.values }

/-- Reads flags up to the first argument that is none, or past two dashes. A value that is refused
is kept all the same. -/
def parse : List Text → Parsed
  | [] => {}
  | arg :: args =>
    match body? arg with
    | none => { rest := arg :: args }
    | some body =>
      if arg = utf8 "--" then { rest := args }
      else if body = [] ∨ body.head? = some 0x2D ∨ body.head? = some 0x3D then
        { error := some (.malformed arg) }
      else
        let (name, value) := split body
        match flagKind? name with
        | none =>
          let asksHelp := name = utf8 "help" ∨ name = utf8 "h"
          { error := some (if asksHelp then .help else .undefined name) }
        | some (.toggle set) =>
          match value with
          | none => (parse args).after (.change (set true))
          | some v =>
            match bool? v with
            | some b => (parse args).after (.change (set b))
            | none => { values := [.change (set false)], error := some (.notBool name v) }
        | some (.text set) =>
          match value, args with
          | some v, args => (parse args).after (set v)
          | none, v :: args => (parse args).after (set v)
          | none, [] => { error := some (.needsValue name) }
        | some (.int set) =>
          let read (v : Text) (rest : Parsed) : Parsed :=
            match int v with
            | .ok n => rest.after (.change (set n))
            | .error (kept, tooLarge) =>
              { values := [.change (set kept)], error := some (.notInt name v tooLarge) }
          match value, args with
          | some v, args => read v (parse args)
          | none, v :: args => read v (parse args)
          | none, [] => { error := some (.needsValue name) }

def changes (values : List FlagValue) : List Change :=
  values.filterMap fun v => match v with
    | .change c => some c
    | .config _ => none

def config (values : List FlagValue) : Text :=
  values.foldl (fun path v => match v with
    | .config p => p
    | .change _ => path) []

end Flags

def usage (name : Text) : Text :=
  utf8 "Usage: " ++ name ++ utf8 (" [flags] [FILE ...]\n\n" ++
    "Runs each FILE in turn, sharing one runtime; - or no FILE reads stdin.\n\n" ++
    "  -config string\n    \tread settings from a YAML file\n" ++
    "  -dump-ast\n    \tdump the parse tree as YAML to stderr before running\n" ++
    "  -dump-state\n    \tdump the stack and dictionary to stderr after running\n" ++
    "  -dump-tokens\n    \tdump tokens to stderr before running\n" ++
    "  -max-call-depth int\n    \tlimit nested word calls (default 10000, at most 100000)\n" ++
    "  -newline string\n    \tend unterminated output with a newline: " ++
    "auto (if a terminal), always or never (default \"auto\")\n" ++
    "  -trace\n    \tenable trace logging\n")

structure Invocation where
  settings : Settings
  names : List Text := []
  failure : Option Failure := none
  isHelp : Bool := false
  stderr : Text := []
  deriving Repr

/-- Flags win over the file that they name, and the file over the defaults. -/
def parseArgs (fs : Files) (name : Text) (args : List Text) : Invocation :=
  let parsed := Flags.parse args
  let changes := Flags.changes parsed.values
  let settings := Settings.applyAll {} changes
  match parsed.error with
  | some .help =>
    { settings, failure := some (.plain FlagError.help.message), isHelp := true,
      stderr := usage name }
  | some e =>
    { settings, failure := some (.plain e.message), stderr := e.message ++ utf8 "\n" ++ usage name }
  | none =>
    let path := Flags.config parsed.values
    if path = [] then { settings, names := parsed.rest, failure := settings.check }
    else
      match Settings.load fs path with
      | (_, some f) => { settings, failure := some f }
      | (file, none) =>
        let settings := file.applyAll changes
        { settings, names := parsed.rest, failure := settings.check }

end StackLang
