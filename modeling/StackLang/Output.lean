import StackLang.Failure

/-! Where output goes. A device answers each call by its script, so that every way of accepting
and refusing bytes is a value; what happened is kept as a list of events. -/
namespace StackLang

/-- A device fails with a message of its own. -/
inductive WriteError where
  | device (message : Text)
  | short
  deriving DecidableEq, Repr

def WriteError.cause : WriteError → Cause
  | device message => .device message
  | short => .shortWrite

/-- How a device answers a call: it takes all, some or none of the bytes, with or without an
error. -/
inductive Reply where
  | all
  | refuse (message : Text)
  | upTo (n : Nat)
  | upToAndRefuse (n : Nat) (message : Text)
  deriving DecidableEq, Repr

/-- The calls that a device offers: writing only, flushing too, or single bytes and characters as
well. What nobody keeps is `discard`. -/
inductive DeviceKind where
  | plain | flushing | characters | discard
  deriving DecidableEq, Repr

/-- A device answers writes by one script and flushes by another, each of which may fail. Past the
ends of both it takes everything and flushes well. -/
structure Device where
  kind : DeviceKind := .plain
  script : List Reply := []
  flushes : List (Option Text) := []
  deriving DecidableEq, Repr

structure Written where
  taken : Nat
  error : Option WriteError := none
  deriving DecidableEq, Repr

def Reply.written (size : Nat) : Reply → Written
  | all => ⟨size, none⟩
  | refuse message => ⟨0, some (.device message)⟩
  | upTo n => ⟨min n size, none⟩
  | upToAndRefuse n message => ⟨min n size, some (.device message)⟩

namespace Device

def answer (d : Device) (size : Nat) : Written :=
  match d.kind with
  | .discard => ⟨size, none⟩
  | _ => (d.script.headD .all).written size

def next (d : Device) : Device := { d with script := d.script.tail }

def canFlush (d : Device) : Bool := d.kind == .flushing || d.kind == .characters

def flushError (d : Device) : Option WriteError :=
  if d.canFlush then (d.flushes.headD none).map .device else none

def flushed (d : Device) : Device :=
  if d.canFlush then { d with flushes := d.flushes.tail } else d

end Device

/-- The UTF-8 bytes of a character code; what is no character becomes the replacement character. -/
def encodeCode (code : Int32) : Text :=
  let n := code.toInt
  if 0 ≤ n ∧ n.toNat.isValidChar then encode (Char.ofNat n.toNat) else encode (Char.ofNat 0xFFFD)

def isCode (code : Int32) : Bool := 0 ≤ code.toInt && decide (code.toInt.toNat.isValidChar)

/-- A line of the trace, and the logger it was given to. -/
structure TraceLine where
  logger : Nat
  text : Text
  deriving DecidableEq, Repr

/-- What happened, device by device, with the lines of the trace in between. -/
inductive Event where
  | trace (line : TraceLine)
  | write (device : Nat) (data : Text) (taken : Nat)
  | byte (device : Nat) (b : UInt8) (taken : Nat)
  | character (device : Nat) (code : Int32) (taken : Nat)
  | flush (device : Nat)
  deriving DecidableEq, Repr

namespace Event

def data : Event → Text
  | trace _ | flush _ => []
  | write _ data taken => data.take taken
  | byte _ b taken => [b].take taken
  | character _ code taken => (encodeCode code).take taken

def device? : Event → Option Nat
  | trace _ => none
  | write i _ _ | byte i _ _ | character i _ _ | flush i => some i

end Event

/-- The devices, and all events so far, newest first. -/
structure Console where
  devices : List Device := []
  events : List Event := []
  deriving DecidableEq, Repr

namespace Console

def device (c : Console) (i : Nat) : Device := c.devices.getD i { kind := .discard }

def note (c : Console) (e : Event) : Console := { c with events := e :: c.events }

/-- A call of device `i` that offers `size` bytes; nothing is noted of what is discarded. -/
def call (c : Console) (i size : Nat) (event : Nat → Event) : Written × Console :=
  let d := c.device i
  let w := d.answer size
  if d.kind = .discard then (w, c)
  else (w, { devices := c.devices.set i d.next, events := event w.taken :: c.events })

def write (c : Console) (i : Nat) (data : Text) : Written × Console :=
  c.call i data.length (.write i data)

def writeByte (c : Console) (i : Nat) (b : UInt8) : Written × Console := c.call i 1 (.byte i b)

def writeCharacter (c : Console) (i : Nat) (code : Int32) : Written × Console :=
  c.call i (encodeCode code).length (.character i code)

def flush (c : Console) (i : Nat) : Option WriteError × Console :=
  let d := c.device i
  if d.canFlush then
    (d.flushError, { devices := c.devices.set i d.flushed, events := .flush i :: c.events })
  else (none, c)

def eventsOf (c : Console) (i : Nat) : List Event :=
  c.events.reverse.filter (·.device? == some i)

def dataOf (c : Console) (i : Nat) : Text := (c.eventsOf i).flatMap Event.data

def traceLines (c : Console) : List Text :=
  c.events.reverse.filterMap fun e => match e with
    | .trace line => some line.text
    | _ => none

end Console

structure Tally where
  count : Nat := 0
  last : UInt8 := 0
  deriving DecidableEq, Repr

def Tally.add (t : Tally) (data : Text) (taken : Nat) : Tally :=
  if taken = 0 then t else ⟨t.count + taken, (data.take taken).getLastD t.last⟩

def Tally.endsLine (t : Tally) : Bool := t.count == 0 || t.last == Text.newline

/-- What output can be sent to: a device, several sinks at once, or nothing. -/
inductive Sink where
  | device (i : Nat)
  | tee (parts : List Sink)
  | nowhere
  deriving Repr

namespace Sink

mutual

/-- The devices behind a sink, in order. A tee of nothing counts as one too: it discards, as does
any device `beyond` the last. -/
def leaves (beyond : Nat) : Sink → List Nat
  | device i => [i]
  | tee parts =>
    let found := leavesOfAll beyond parts
    if found.isEmpty then [beyond] else found
  | nowhere => []

def leavesOfAll (beyond : Nat) : List Sink → List Nat
  | [] => []
  | s :: rest => s.leaves beyond ++ leavesOfAll beyond rest

end

end Sink

/-- The devices that output goes to, in order; with none of them it is discarded. A counted output
keeps a tally. -/
structure Output where
  leaves : List Nat := []
  tally : Option Tally := none
  console : Console := {}
  deriving DecidableEq, Repr

namespace Output

def counted (c : Console) (s : Sink) : Output :=
  { leaves := s.leaves c.devices.length, tally := some {}, console := c }

def writeEach (c : Console) (data : Text) : List Nat → Written × Console
  | [] => (⟨data.length, none⟩, c)
  | i :: rest =>
    match c.write i data with
    | (⟨taken, some e⟩, c) => (⟨taken, some e⟩, c)
    | (⟨taken, none⟩, c) =>
      if taken = data.length then writeEach c data rest else (⟨taken, some .short⟩, c)

/-- A single device is used as it is; only several of them are held to take everything. -/
def write (o : Output) (data : Text) : Written × Output :=
  let (w, c) := match o.leaves with
    | [i] => o.console.write i data
    | is => writeEach o.console data is
  (w, { o with console := c, tally := o.tally.map (·.add data w.taken) })

/-- Flushes every device, and gives the first error. -/
def flushEach (c : Console) : List Nat → Option WriteError × Console
  | [] => (none, c)
  | i :: rest =>
    let (e, c) := c.flush i
    let (e', c) := flushEach c rest
    (e.or e', c)

def flush (o : Output) : Option WriteError × Output :=
  let (e, c) := flushEach o.console o.leaves
  (e, { o with console := c })

def characterDevice? (o : Output) : Option Nat :=
  match o.leaves, o.tally with
  | [i], none => if (o.console.device i).kind = .characters then some i else none
  | _, _ => none

/-- Writes a character code: ASCII as a byte, the rest in UTF-8. A device for single bytes is
credited with its byte whatever it does. -/
def writeCode (o : Output) (code : Int32) : Written × Output :=
  match o.characterDevice? with
  | none => o.write (if code < 0x80 then [code.toUInt32.toUInt8] else encodeCode code)
  | some i =>
    if code < 0x80 then
      let (w, c) := o.console.writeByte i code.toUInt32.toUInt8
      (⟨1, w.error⟩, { o with console := c })
    else
      let (w, c) := o.console.writeCharacter i code
      (w, { o with console := c })

def writeCodesAfter (o : Output) (n : Nat) : List Int32 → Written × Output
  | [] => (⟨n, none⟩, o)
  | code :: rest =>
    match o.writeCode code with
    | (⟨k, some e⟩, o) => (⟨n + k, some e⟩, o)
    | (⟨k, none⟩, o) => o.writeCodesAfter (n + k) rest

def writeCodes (o : Output) (codes : List Int32) : Written × Output := o.writeCodesAfter 0 codes

def note (o : Output) (e : Event) : Output := { o with console := o.console.note e }

end Output
end StackLang
