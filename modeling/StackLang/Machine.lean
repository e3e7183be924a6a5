import StackLang.Fault

/-! The stack machine. Primitives work on the data stack and the output alone, so they cannot
touch the loop counters; what they did before a fault stays done. -/
namespace StackLang

/-- The data stack, top first, and the output. -/
structure Bench where
  stack : List Entity := []
  out : Output := {}
  deriving DecidableEq, Repr

namespace Bench

abbrev Action := EStateM Stop Bench

def fail {α : Type} (op : Text) (trouble : Trouble) : Action α := throw (.fault ⟨op, trouble⟩)

def push (e : Entity) : Action Unit := fun b => .ok () { b with stack := e :: b.stack }

def popNumber (op : Text) : Action Int32 := fun b =>
  match b.stack with
  | [] => fail op .underflow b
  | .number n :: rest => .ok n { b with stack := rest }
  | e :: rest => fail op (.notNumber e.type) { b with stack := rest }

def truth (p : Bool) : Entity := .number (if p then 1 else 0)

def arith (op : Op) (a b : Int32) : Option (Except Trouble Entity) :=
  match op with
  | .add => some (.ok (.number (a + b)))
  | .sub => some (.ok (.number (a - b)))
  | .mul => some (.ok (.number (a * b)))
  | .div => some (if b = 0 then .error .divideByZero else .ok (.number (a / b)))
  | .mod => some (if b = 0 then .error .divideByZero else .ok (.number (a % b)))
  | .and => some (.ok (.number (a &&& b)))
  | .or => some (.ok (.number (a ||| b)))
  | .lt => some (.ok (truth (a < b)))
  | .gt => some (.ok (truth (b < a)))
  | .le => some (.ok (truth (a ≤ b)))
  | .ge => some (.ok (truth (b ≤ a)))
  | _ => none

/-- Equality takes any two entities, and strings can be added; the rest is for numbers. -/
def combine (op : Op) (a b : Entity) : Except Trouble Entity :=
  match op, a, b with
  | .eq, a, b | .same, a, b => .ok (truth (a.equal b))
  | .add, .string s, .string t => .ok (.string (s ++ t))
  | op, .number m, .number n => (arith op m n).getD (.error .notOperation)
  | _, a, b => .error (.mismatch a.type b.type)

/-- Replaces the two topmost entities by their combination; both are gone if there is none. -/
def binary (op : Op) : Action Unit := fun b =>
  match b.stack with
  | y :: x :: rest =>
    match combine op x y with
    | .ok e => .ok () { b with stack := e :: rest }
    | .error trouble => fail op.name trouble { b with stack := rest }
  | short => fail op.name (.lacking 2 short.length) b

def write (op : Op) (data : Text) : Action Unit := fun b =>
  match b.out.write data with
  | (⟨_, none⟩, out) => .ok () { b with out }
  | (⟨_, some e⟩, out) => fail op.name (.writing e) { b with out }

/-- The codes of `n` entities from the top down, put before those already read. The stack loses
what was looked at, and nothing else. -/
def takeCodes (op : Text) : Nat → List Int32 → Action (List Int32)
  | 0, codes => pure codes
  | n + 1, codes => fun b =>
    match popNumber op b with
    | .error e b => .error e b
    | .ok code b =>
      if isCode code then takeCodes op n (code :: codes) b else fail op (.invalidCode code) b

/-- Writes as many characters as the top says, the deepest first; all of them are looked at before
any is written. -/
def puts : Action Unit := fun b =>
  let op := Op.puts.name
  match popNumber op b with
  | .error e b => .error e b
  | .ok n b =>
    let size := n.toInt.toNat
    if n < 0 then fail op (.invalidLength n) b
    else if (b.stack.take size).length < size then fail op (.lacking size b.stack.length) b
    else match takeCodes op size [] b with
      | .error e b => .error e b
      | .ok codes b =>
        match b.out.writeCodes codes with
        | (⟨_, none⟩, out) => .ok () { b with out }
        | (⟨_, some e⟩, out) => fail op (.writing e) { b with out }

def invert : Action Unit := fun b =>
  match popNumber Op.invert.name b with
  | .error e b => .error e b
  | .ok n b => push (.number (~~~n)) b

def dup : Action Unit := fun b =>
  match b.stack with
  | [] => fail Op.dup.name (.lacking 1 0) b
  | e :: rest => .ok () { b with stack := e :: e :: rest }

/-- Asks for two entities, and leaves them as they are. -/
def swap : Action Unit := fun b =>
  match b.stack with
  | _ :: _ :: _ => .ok () b
  | short => fail Op.swap.name (.lacking 2 short.length) b

def drop : Action Unit := fun b =>
  match b.stack with
  | [] => fail Op.drop.name (.lacking 1 0) b
  | _ :: rest => .ok () { b with stack := rest }

/-- Takes the top and writes it; with nothing there to write the run breaks off. -/
def emit : Action Unit := fun b =>
  match b.stack with
  | [] => fail Op.emit.name (.lacking 1 0) b
  | e :: rest =>
    match e.emitted? with
    | some data => write .emit data { b with stack := rest }
    | none => .error .broken { b with stack := rest }

def perform : Op → Action Unit
  | .invert => invert
  | .dup => dup
  | .swap => swap
  | .drop => drop
  | .emit => emit
  | .puts => puts
  | .cr => write .cr [Text.newline]
  | op => binary op

def execute : Kind → Action Unit
  | .op o => perform o
  | k => fail k.title .notOperation

end Bench

structure LoopCounter where
  limit : Int32
  index : Int32
  deriving DecidableEq, Repr

def shownLoops (loops : List LoopCounter) : Text :=
  let one (l : LoopCounter) : Text :=
    utf8 "\x7b" ++ Text.decimal l.limit.toInt ++ utf8 " " ++ Text.decimal l.index.toInt ++
      utf8 "\x7d"
  utf8 "[" ++ Text.join [Text.space] (loops.reverse.map one) ++ utf8 "]"

/-- A bench with the active loops, innermost first. -/
structure Machine where
  bench : Bench := {}
  loops : List LoopCounter := []
  deriving DecidableEq, Repr

namespace Machine

abbrev Action := EStateM Stop Machine

def fail {α : Type} (op : Text) (trouble : Trouble) : Action α := throw (.fault ⟨op, trouble⟩)

def onBench {α : Type} (act : Bench.Action α) : Action α := fun m =>
  match act m.bench with
  | .ok a bench => .ok a { m with bench }
  | .error e bench => .error e { m with bench }

def enterLoop (limit index : Int32) : Action Unit := fun m =>
  if maxLoops ≤ m.loops.length then fail Kind.doMark.title .tooManyLoops m
  else .ok () { m with loops := ⟨limit, index⟩ :: m.loops }

def loopDone (m : Machine) : Bool :=
  match m.loops with
  | [] => true
  | l :: _ => l.limit ≤ l.index

def stepLoop (m : Machine) : Machine :=
  match m.loops with
  | [] => m
  | l :: rest => { m with loops := { l with index := l.index + 1 } :: rest }

def exitLoop (m : Machine) : Machine := { m with loops := m.loops.tail }

def loopIndex (depth : Int) : Action Int32 := fun m =>
  match (if 0 ≤ depth then m.loops[depth.toNat]? else none) with
  | some l => .ok l.index m
  | none => fail (loopName (.ofInt depth)) (.noLoop m.loops.length) m

end Machine
end StackLang
