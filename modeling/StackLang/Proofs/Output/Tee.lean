import Mathlib.Data.List.ReduceOption
import StackLang.Proofs.Output.Events

/-! Tees of tees. A tee leaves out what is no sink and opens the tees among its parts, one level at
a time. What comes of it is a row of sinks, which are offered every write in order, up to the first
that does not take the whole of it. -/
namespace StackLang

/-- The sinks that tees are made of, in a world of their own: how each answers a write and a
flush. -/
structure Outlets (σ : Type) where
  write : Nat → Text → σ → Written × σ
  flush : Nat → σ → Option WriteError × σ

inductive SinkCall where
  | write (data : Text)
  | flush

inductive SinkAnswer where
  | written (w : Written)
  | flushed (error : Option WriteError)
  deriving DecidableEq, Repr

def answers {τ : Type} (answer : SinkCall → τ → SinkAnswer × τ) :
    List SinkCall → τ → List SinkAnswer × τ
  | [], t => ([], t)
  | call :: rest, t =>
    let (a, t) := answer call t
    let (later, t) := answers answer rest t
    (a :: later, t)

theorem answers_alike {τ υ : Type} {R : τ → υ → Prop} {f : SinkCall → τ → SinkAnswer × τ}
    {g : SinkCall → υ → SinkAnswer × υ}
    (step : ∀ call t u, R t u → (f call t).1 = (g call u).1 ∧ R (f call t).2 (g call u).2)
    (calls : List SinkCall) {t : τ} {u : υ} (related : R t u) :
    (answers f calls t).1 = (answers g calls u).1 ∧ R (answers f calls t).2 (answers g calls u).2 := by
  induction calls generalizing t u with
  | nil => exact ⟨rfl, related⟩
  | cons call rest ih =>
    obtain ⟨same, next⟩ := step call t u related
    obtain ⟨later, ended⟩ := ih next
    constructor
    · simp only [answers, same, later]
    · exact ended

/-- A sink as it has been put together. -/
inductive Conduit where
  | outlet (i : Nat)
  | discard
  | row (parts : List Conduit)

namespace Conduit

/-- The parts of a tee of these. A row is opened, but not what stands in it. -/
def opened : List (Option Conduit) → List Conduit
  | [] => []
  | none :: rest => opened rest
  | some (row parts) :: rest => parts ++ opened rest
  | some one :: rest => one :: opened rest

def tee (sinks : List (Option Conduit)) : Conduit :=
  match opened sinks with
  | [] => discard
  | [one] => one
  | parts => row parts

section

variable {σ : Type} (outlets : Outlets σ)

mutual

def write (data : Text) : Conduit → σ → Written × σ
  | outlet i, s => outlets.write i data s
  | discard, s => (⟨data.length, none⟩, s)
  | row parts, s => writeRow data parts s

def writeRow (data : Text) : List Conduit → σ → Written × σ
  | [], s => (⟨data.length, none⟩, s)
  | part :: rest, s =>
    match part.write data s with
    | (⟨taken, some e⟩, s) => (⟨taken, some e⟩, s)
    | (⟨taken, none⟩, s) =>
      if taken = data.length then writeRow data rest s else (⟨taken, some .short⟩, s)

end

mutual

def flush : Conduit → σ → Option WriteError × σ
  | outlet i, s => outlets.flush i s
  | discard, s => (none, s)
  | row parts, s => flushRow parts s

def flushRow : List Conduit → σ → Option WriteError × σ
  | [], s => (none, s)
  | part :: rest, s =>
    let (e, s) := part.flush s
    let (e', s) := flushRow rest s
    (e.or e', s)

end

def answer (k : Conduit) : SinkCall → σ → SinkAnswer × σ
  | .write data, s => (.written (k.write outlets data s).1, (k.write outlets data s).2)
  | .flush, s => (.flushed (k.flush outlets s).1, (k.flush outlets s).2)

end

end Conduit

namespace Sink

mutual

/-- What a tree of tees is put together to. -/
def conduit? : Sink → Option Conduit
  | device i => some (.outlet i)
  | tee parts => some (.tee (conduits parts))
  | nowhere => none

def conduits : List Sink → List (Option Conduit)
  | [] => []
  | s :: rest => s.conduit? :: conduits rest

end

def orNothing : List (Option Nat) → List (Option Nat)
  | [] => [none]
  | found => found

mutual

/-- The sinks of a tree from left to right. A tee of nothing is a sink that discards. -/
def members : Sink → List (Option Nat)
  | device i => [some i]
  | tee parts => orNothing (membersOfAll parts)
  | nowhere => []

def membersOfAll : List Sink → List (Option Nat)
  | [] => []
  | s :: rest => s.members ++ membersOfAll rest

end

/-- The sinks of a tree that write anywhere. -/
def named (s : Sink) : List Nat := s.members.reduceOption

end Sink

namespace Conduit

def single : Option Nat → Conduit
  | some i => outlet i
  | none => discard

def inRow : List (Option Nat) → Conduit
  | [m] => single m
  | ms => row (ms.map single)

theorem opened_single (m : Option Nat) (rest : List (Option Conduit)) :
    opened (some (single m) :: rest) = single m :: opened rest := by
  cases m <;> rfl

theorem opened_inRow {ms : List (Option Nat)} (rest : List (Option Conduit)) :
    opened (some (inRow ms) :: rest) = ms.map single ++ opened rest := by
  match ms with
  | [] => rfl
  | [m] => exact opened_single m rest
  | _ :: _ :: _ => rfl

theorem tee_of_opened {sinks : List (Option Conduit)} {ms : List (Option Nat)}
    (found : opened sinks = ms.map single) : tee sinks = inRow (Sink.orNothing ms) := by
  unfold tee
  rw [found]
  match ms with
  | [] => rfl
  | [m] => rfl
  | _ :: _ :: _ => rfl

mutual

theorem opened_cons (s : Sink) (rest : List (Option Conduit)) :
    opened (s.conduit? :: rest) = s.members.map single ++ opened rest := by
  cases s with
  | device i => rfl
  | nowhere => rfl
  | tee parts =>
    have built := tee_of_opened (opened_conduits parts)
    simp only [Sink.conduit?, Sink.members, built]
    exact opened_inRow rest

/-- However deep they are nested, tees come to one row. -/
theorem opened_conduits (sinks : List Sink) :
    opened (Sink.conduits sinks) = (Sink.membersOfAll sinks).map single := by
  cases sinks with
  | nil => rfl
  | cons s rest =>
    simp only [Sink.conduits, Sink.membersOfAll, List.map_append]
    rw [opened_cons s, opened_conduits rest]

end

theorem conduit_tee (parts : List Sink) :
    (Sink.tee parts).conduit? = some (inRow (Sink.tee parts).members) := by
  simp only [Sink.conduit?, Sink.members, tee_of_opened (opened_conduits parts)]

end Conduit
end StackLang
