import StackLang.Proofs.Interpreter.Sequence
import StackLang.Proofs.Machine.Puts

/-! Straight lines. Literals and operations that succeed work on the stack and the output alone, so
a line of them comes to the stack that they leave one after the other, with the chunks that they
write in this order. -/
namespace StackLang

namespace Bench
open Output (Copied)

/-- On this stack, with an output that takes everything, the action leaves the stack `rest` and has
the chunks written. -/
def Yields (act : Action Unit) (stack rest : List Entity) (chunks : List Text) : Prop :=
  ∀ out : Output, out.TakesAll → ∃ p, act ⟨stack, out⟩ = .ok () ⟨rest, p⟩ ∧ Copied out chunks p

theorem Yields.silent {act : Action Unit} {stack rest : List Entity}
    (done : ∀ out, act ⟨stack, out⟩ = .ok () ⟨rest, out⟩) : Yields act stack rest [] :=
  fun out _ => ⟨out, done out, .nothing out⟩

theorem yields_emit {e : Entity} {data : Text} (emitted : e.emitted? = some data)
    (rest : List Entity) : Yields emit (e :: rest) rest [data] := by
  intro out all
  obtain ⟨fine, copied⟩ := Output.copied_write all data
  refine ⟨_, ?_, copied⟩
  have asked : emit ⟨e :: rest, out⟩ = report Op.emit.name rest (out.write data) := by
    simp only [emit, emitted]
    rfl
  rw [asked, report_eq, fine]

theorem yields_puts {stack below : List Entity} {chars : List Char}
    (spelled : Spelled stack chars below) : Yields puts stack below (chars.map encode) := by
  intro out all
  obtain ⟨fine, copied⟩ := Output.copied_writeChunks all (chars.map String.utf8EncodeChar)
  obtain ⟨p, same, done⟩ := puts_chunks spelled out
  rw [fine] at done
  refine ⟨p, done, ?_⟩
  rw [funext encode_eq]
  exact copied.sameOffers same

end Bench

namespace Interpreter
open Bench (Yields)
open Output (Copied)

def Works (n : Node) (act : Bench.Action Unit) : Prop :=
  perform n = do
    onBench act
    return []

theorem works_number (value : Int32) : Works (.number value) (Bench.push (.number value)) := rfl

theorem works_op (op : Op) : Works (.op (.op op)) (Bench.perform op) := rfl

inductive Straight : List Node → List Entity → List Entity → List Text → Prop
  | nil (stack : List Entity) : Straight [] stack stack []
  | cons {n : Node} {act : Bench.Action Unit} {ns : List Node} {stack middle last : List Entity}
    {chunks more : List Text} (works : Works n act) (yields : Yields act stack middle chunks)
    (later : Straight ns middle last more) : Straight (n :: ns) stack last (chunks ++ more)

/-- From `s` to `t` nothing has changed but the stack, and the chunks have been written. -/
structure Wrote (s : Interpreter) (stack : List Entity) (chunks : List Text) (t : Interpreter) :
    Prop where
  state : t = { s with machine.bench := ⟨stack, t.machine.bench.out⟩ }
  copied : Copied s.machine.bench.out chunks t.machine.bench.out

theorem Wrote.trans {s t u : Interpreter} {stack rest : List Entity} {chunks more : List Text}
    (first : Wrote s stack chunks t) (second : Wrote t rest more u) :
    Wrote s rest (chunks ++ more) u := by
  refine ⟨?_, first.copied.trans second.copied⟩
  rw [second.state, first.state]

theorem wrote_announce (s : Interpreter) (n : Node) :
    Wrote s s.machine.bench.stack [] (s.announce n) := by
  obtain ⟨out, announced, traced⟩ := announce_eq s n
  rw [announced]
  refine ⟨rfl, ?_⟩
  rcases traced with rfl | ⟨line, rfl⟩
  · exact .nothing _
  · exact (Copied.nothing _).trace line

theorem visit_works {n : Node} {act : Bench.Action Unit} (works : Works n act) (s : Interpreter) :
    visit n s = match act (s.announce n).machine.bench with
      | .ok _ bench => .ok [] { s.announce n with machine.bench := bench }
      | .error stop bench => .error stop { s.announce n with machine.bench := bench } := by
  rw [visit, works]
  change EStateM.bind _ _ _ = _
  simp only [EStateM.bind, onBench, onMachine, Machine.onBench]
  cases act (s.announce n).machine.bench <;> rfl

theorem step_works {n : Node} {act : Bench.Action Unit} (works : Works n act) {s : Interpreter}
    {rest : List Entity} {chunks : List Text}
    (yields : Yields act s.machine.bench.stack rest chunks) (all : s.machine.bench.out.TakesAll)
    (ns : List Node) (waiting : List Frame) :
    ∃ t, step (.rest (n :: ns) :: waiting) s = .more (.rest ns :: waiting) t ∧
      Wrote s rest chunks t := by
  have quiet := wrote_announce s n
  obtain ⟨p, done, copied⟩ := yields _ (quiet.copied.takesAll all)
  have bench : (s.announce n).machine.bench =
      ⟨s.machine.bench.stack, (s.announce n).machine.bench.out⟩ :=
    congrArg (·.machine.bench) quiet.state
  have visited := visit_works works s
  rw [bench, done] at visited
  refine ⟨{ s.announce n with machine.bench := ⟨rest, p⟩ }, ?_, ?_⟩
  · simp only [step, resume_rest, visited]
    rfl
  · exact quiet.trans ⟨rfl, copied⟩

theorem run_stops {n : Node} {act : Bench.Action Unit} (works : Works n act) {s : Interpreter}
    {rest : List Entity} {stop : Stop}
    (stopped : ∀ out, act ⟨s.machine.bench.stack, out⟩ = .error stop ⟨rest, out⟩)
    (ns : List Node) :
    ∃ t, run [.rest (n :: ns)] s = (some stop, t) ∧ Wrote s rest [] t := by
  have quiet := wrote_announce s n
  have bench : (s.announce n).machine.bench =
      ⟨s.machine.bench.stack, (s.announce n).machine.bench.out⟩ :=
    congrArg (·.machine.bench) quiet.state
  have visited := visit_works works s
  rw [bench, stopped] at visited
  refine ⟨{ s.announce n with machine.bench := ⟨rest, (s.announce n).machine.bench.out⟩ }, ?_, ?_⟩
  · apply run_of_ended
    simp only [step, resume_rest, visited]
    rfl
  · exact quiet.trans ⟨rfl, .nothing _⟩

/-- A straight line is run to its end. -/
theorem Straight.run {ns : List Node} {s : Interpreter} {last : List Entity} {chunks : List Text}
    (straight : Straight ns s.machine.bench.stack last chunks)
    (all : s.machine.bench.out.TakesAll) :
    ∃ t, Interpreter.run [.rest ns] s = (none, t) ∧ Wrote s last chunks t := by
  generalize stack : s.machine.bench.stack = first at straight
  induction straight generalizing s with
  | nil => exact ⟨s, run_rest_nil s, by rw [← stack], .nothing _⟩
  | cons works yields later ih =>
    obtain ⟨t, stepped, wrote⟩ := step_works works (stack ▸ yields) all _ []
    have there : t.machine.bench.stack = _ := congrArg (·.machine.bench.stack) wrote.state
    obtain ⟨u, ran, more⟩ := ih (wrote.copied.takesAll all) there
    exact ⟨u, (run_of_more stepped).trans ran, wrote.trans more⟩

/-- A straight line is run up to the first node whose work cannot be done. -/
theorem Straight.run_stops {ns : List Node} {s : Interpreter} {last rest : List Entity}
    {chunks : List Text} (straight : Straight ns s.machine.bench.stack last chunks)
    (all : s.machine.bench.out.TakesAll) {n : Node} {act : Bench.Action Unit} (works : Works n act)
    {stop : Stop} (stopped : ∀ out, act ⟨last, out⟩ = .error stop ⟨rest, out⟩) (ms : List Node) :
    ∃ t, Interpreter.run [.rest (ns ++ n :: ms)] s = (some stop, t) ∧ Wrote s rest chunks t := by
  obtain ⟨t, ran, wrote⟩ := straight.run all
  have there : t.machine.bench.stack = last := congrArg (·.machine.bench.stack) wrote.state
  obtain ⟨u, ended, quiet⟩ := Interpreter.run_stops works (there ▸ stopped) ms
  refine ⟨u, ?_, List.append_nil chunks ▸ wrote.trans quiet⟩
  rw [run_rest_append, ran]
  exact ended

end Interpreter
end StackLang
