import StackLang.Source
import StackLang.Output

/-! Leveled logging to a device, and lines cut out of a stream of bytes. -/
namespace StackLang

inductive Arg where
  | int (n : Int)
  | text (t : Text)
  deriving DecidableEq, Repr

namespace Template

/-- What stands between a percent sign and its verb. -/
structure Flags where
  plus : Bool := false
  minus : Bool := false
  blank : Bool := false
  zero : Bool := false
  width : Nat := 0

def Flags.padded (f : Flags) (t : Text) : Text :=
  let fill := List.replicate (f.width - t.glyphs.length)
  if f.minus then t ++ fill Text.space else fill Text.space ++ t

def Flags.number (f : Flags) (n : Int) : Text :=
  let sign : Text :=
    if n < 0 then [0x2D] else if f.plus then [0x2B] else if f.blank then [Text.space] else []
  let digits := Text.decimal n.natAbs
  if f.zero ∧ !f.minus then
    sign ++ List.replicate (f.width - sign.length - digits.length) 0x30 ++ digits
  else f.padded (sign ++ digits)

def Flags.value (f : Flags) : Arg → Text
  | .int n => f.number n
  | .text t => f.padded t

def typed (f : Flags) : Arg → Text
  | .int n => utf8 "int=" ++ f.number n
  | .text t => utf8 "string=" ++ f.padded t

def filled (f : Flags) (verb : Glyph) (arg : Arg) : Text :=
  match verb.shown, arg with
  | 'v', a => f.value a
  | 'd', .int n => f.number n
  | 's', .text t => f.padded t
  | c, a => utf8 "%!" ++ encode c ++ utf8 "(" ++ typed f a ++ utf8 ")"

/-- One more character before the verb, if it is a flag or widens the field. -/
def Flags.with? (f : Flags) (g : Glyph) : Option Flags :=
  if g.isDigit ∧ (f.width ≠ 0 ∨ g ≠ .char '0') then
    some { f with width := f.width * 10 + (g.shown.toNat - 48) }
  else if f.width ≠ 0 then none
  else match g with
    | .char '+' => some { f with plus := true }
    | .char '-' => some { f with minus := true }
    | .char ' ' => some { f with blank := true }
    | .char '0' => some { f with zero := true }
    | .char '#' => some f
    | _ => none

inductive Piece where
  | glyph (g : Glyph)
  | verb (f : Flags) (g : Glyph)
  | noVerb

/-- The pieces of a template. After a percent sign there are flags until the verb. -/
def pieces : Option Flags → List Glyph → List Piece
  | none, [] => []
  | some _, [] => [.noVerb]
  | none, g :: gs => if g = .char '%' then pieces (some {}) gs else .glyph g :: pieces none gs
  | some f, g :: gs =>
    match f.with? g with
    | some f => pieces (some f) gs
    | none => .verb f g :: pieces none gs

/-- Verbs take the arguments in order; what is missing or left over is written out. -/
def fill : List Arg → List Piece → Text
  | [], [] => []
  | args, [] => utf8 "%!(EXTRA " ++ Text.join (utf8 ", ") (args.map (typed {})) ++ utf8 ")"
  | args, .glyph g :: ps => g.bytes ++ fill args ps
  | args, .noVerb :: ps => utf8 "%!(NOVERB)" ++ fill args ps
  | args, .verb f g :: ps =>
    if g = .char '%' then utf8 "%" ++ fill args ps
    else match args with
      | [] => utf8 "%!" ++ encode g.shown ++ utf8 "(MISSING)" ++ fill [] ps
      | a :: args => filled f g a ++ fill args ps

end Template

/-- A template and what goes into it; without arguments it is taken as it is. -/
structure Message where
  template : Text
  args : List Arg := []
  deriving DecidableEq, Repr

def Message.text (m : Message) : Text :=
  if m.args = [] then m.template
  else Template.fill m.args (Template.pieces none m.template.glyphs)

def Message.tagged (m : Message) (tag : Text) : Message :=
  { m with template := utf8 "[" ++ tag ++ utf8 "] " ++ m.template }

/-- `buffer` holds what the device has not taken yet. -/
structure Logger where
  device : Option Nat
  color : Bool := false
  buffer : Text := []
  exitCode : Nat := 0
  deriving DecidableEq, Repr

namespace Logger

def levelColor? (level : Text) : Option Text :=
  if level = utf8 "ERROR" then some (utf8 "31")
  else if level = utf8 "WARN" then some (utf8 "33")
  else if level = utf8 "TRACE" ∨ level = utf8 "DEBUG" then some (utf8 "2")
  else if level = utf8 "INFO" then some (utf8 "36")
  else none

def label (color : Bool) (level : Text) : Text :=
  if level = [] then []
  else match (if color then levelColor? level else none) with
    | some code => utf8 "\x1b[" ++ code ++ utf8 "m" ++ level ++ utf8 "\x1b[0m: "
    | none => level ++ utf8 ": "

def ended (t : Text) : Text :=
  if t = [] ∨ t.getLast? = some Text.newline then t else t ++ [Text.newline]

def flush (l : Logger) (c : Console) : Option WriteError × Logger × Console :=
  match l.device with
  | none => (none, { l with buffer := [] }, c)
  | some i =>
    if l.buffer = [] then (none, l, c)
    else
      let (w, c) := c.write i l.buffer
      let short := if w.taken = l.buffer.length then none else some .short
      (w.error.or short, { l with buffer := l.buffer.drop w.taken }, c)

def print (l : Logger) (c : Console) (level message : Text) :
    Option WriteError × Logger × Console :=
  { l with buffer := ended (l.buffer ++ label l.color level ++ message) }.flush c

/-- Logs a message. If it cannot be written the error takes its place, and the exit code is 2. -/
def log (l : Logger) (c : Console) (level : Text) (m : Message) : Logger × Console :=
  match l.print c level m.text with
  | (none, l, c) => (l, c)
  | (some e, l, c) =>
    let (_, l, c) := { l with buffer := [] }.print c (utf8 "ERROR") e.cause.message
    ({ l with exitCode := 2 }, c)

/-- Logs an error; the exit code is 1 from then on. -/
def error (l : Logger) (c : Console) (m : Message) : Logger × Console :=
  let (_, l, c) := l.print c (utf8 "ERROR") m.text
  ({ l with exitCode := 1 }, c)

def errorIf (l : Logger) (c : Console) : Option Failure → Logger × Console
  | none => (l, c)
  | some f => l.error c { template := f.message }

def report (l : Logger) (c : Console) (tracing : Bool) (f : Failure) : Logger × Console :=
  let (l, c) := l.errorIf c (some f)
  let context := (f.firstPlace?.map Failure.Place.context).getD []
  let (l, c) := if context = [] then (l, c) else l.log c [] { template := context }
  if tracing ∧ f.trace ≠ [] then
    l.log c (utf8 "TRACE") { template := utf8 "panic stack: " ++ f.trace }
  else (l, c)

end Logger

/-- The part of a line that has come in so far. -/
structure LineWriter where
  partialLine : Text := []
  deriving DecidableEq, Repr

namespace LineWriter

/-- The lines that end in `data`, the first of them begun by `begun`, and what is left over. -/
def lines (begun data : Text) : List Text × Text :=
  match _found : data.dropWhile (· ≠ Text.newline) with
  | [] => ([], begun ++ data)
  | _ :: rest =>
    let (ls, left) := lines [] rest
    ((begun ++ data.takeWhile (· ≠ Text.newline)) :: ls, left)
termination_by data.length
decreasing_by
  have whole := congrArg List.length
    (List.takeWhile_append_dropWhile (p := (· ≠ Text.newline)) (l := data))
  simp only [_found, List.length_append, List.length_cons] at whole
  omega

/-- Hands out the lines that end in the data, and keeps the rest. All of the data is taken. -/
def write (w : LineWriter) (data : Text) : Written × List Text × LineWriter :=
  let (ls, left) := lines w.partialLine data
  (⟨data.length, none⟩, ls, ⟨left⟩)

def flush (w : LineWriter) : Option WriteError × List Text × LineWriter :=
  if w.partialLine = [] then (none, [], w) else (none, [w.partialLine], ⟨[]⟩)

def close (w : LineWriter) : Option WriteError × List Text × LineWriter := w.flush

end LineWriter
end StackLang
