import StackLang.Failure

/-! Files by name, as one directory holds them. A name may take steps between directories; those
outside this one are there, and nothing is known of what they hold. -/
namespace StackLang

/-- Files and their texts; of two with one name the later is there. -/
abbrev Files := List (Text × Text)

inductive FileError where
  | missing | isDirectory | notDirectory | nameTooLong | invalidName
  deriving DecidableEq, Repr

/-- A directory can be opened, and only then not be read. -/
def FileError.message (name : Text) : FileError → Text
  | missing => utf8 "open " ++ name ++ utf8 ": no such file or directory"
  | isDirectory => utf8 "read " ++ name ++ utf8 ": is a directory"
  | notDirectory => utf8 "open " ++ name ++ utf8 ": not a directory"
  | nameTooLong => utf8 "open " ++ name ++ utf8 ": file name too long"
  | invalidName => utf8 "open " ++ name ++ utf8 ": invalid argument"

namespace Files

def slash : UInt8 := 0x2F

def steps (name : Text) : List Text :=
  name.foldr (fun b steps => if b = slash then [] :: steps else steps.modifyHead (b :: ·)) [[]]

inductive Spot where
  | here
  | elsewhere
  | file (text : Text)
  deriving DecidableEq, Repr

def find? (fs : Files) (name : Text) : Option Text := (fs.findRev? (·.1 = name)).map Prod.snd

/-- One step further. Nothing leads on from a file. -/
def walk (fs : Files) (spot : Spot) (step : Text) : Except FileError Spot :=
  match spot with
  | .file _ => .error .notDirectory
  | .here =>
    if step = [] ∨ step = utf8 "." then .ok .here
    else if step = utf8 ".." then .ok .elsewhere
    else if 255 < step.length then .error .nameTooLong
    else match fs.find? step with
      | some text => .ok (.file text)
      | none => .error .missing
  | .elsewhere =>
    if [[], utf8 ".", utf8 ".."].contains step then .ok .elsewhere
    else if 255 < step.length then .error .nameTooLong
    else .error .missing

def reach (fs : Files) (name : Text) : Except FileError Text :=
  if name = [] then .error .missing
  else if name.contains 0 then .error .invalidName
  else if 4096 ≤ name.length then .error .nameTooLong
  else
    match (steps name).foldlM fs.walk (if name.head? = some slash then .elsewhere else .here) with
    | .ok (.file text) => .ok text
    | .ok _ => .error .isDirectory
    | .error e => .error e

def read (fs : Files) (name : Text) : Except FileError Text :=
  match fs.find? name with
  | some text => .ok text
  | none => fs.reach name

end Files

def Files.open (fs : Files) (name : Text) : Except Failure Text :=
  (fs.read name).mapError fun e => .plain (e.message name)

end StackLang
