import StackLang.Proofs.Machine.Below
import StackLang.Proofs.Output.Flush

/-! A run is local to the part of the stack that it uses: unless it finds too little there, it does
the same with anything else below. -/
namespace StackLang

/-- The devices have been called alike, and stand alike. -/
def Output.SameCalls : Output → Output → Prop := Paired (Console.Alike Event.isCall)

namespace Interpreter

/-- The second state is the first one with more below its stack, and the outputs are related. -/
structure Above (O : Output → Output → Prop) (below : List Entity) (s t : Interpreter) : Prop where
  bench : Bench.Above O below s.machine.bench t.machine.bench
  loops : t.machine.loops = s.machine.loops
  words : t.words = s.words
  depth : t.depth = s.depth
  limit : t.maxCallDepth = s.maxCallDepth

namespace Above

variable {O : Output → Output → Prop} {below : List Entity} {excused : Stop → Prop}

theorem onBench {α : Type} {act : Bench.Action α}
    (respects : Respects (Bench.Above O below) excused act) :
    Respects (Above O below) excused (onBench act) := by
  intro s t above
  have agree := respects _ _ above.bench
  simp only [Interpreter.onBench, onMachine, Machine.onBench]
  generalize act s.machine.bench = here at agree ⊢
  generalize act t.machine.bench = there at agree ⊢
  cases agree with
  | ok bench => exact .ok ⟨bench, above.loops, above.words, above.depth, above.limit⟩
  | error bench => exact .error ⟨bench, above.loops, above.words, above.depth, above.limit⟩
  | excused excuse => exact .excused excuse

theorem find (name : Text) : Respects (Above O below) excused (Interpreter.find name) := by
  intro s t above
  unfold Interpreter.find
  rw [above.words]
  cases s.words.find? name with
  | some b => exact .ok above
  | none => exact .error above

theorem bind (name : Text) (b : Binding) :
    Respects (Above O below) excused (Interpreter.bind name b) := by
  intro s t above
  exact .ok ⟨above.bench, above.loops, congrArg (·.set name b) above.words, above.depth, above.limit⟩

theorem enterWord (name : Text) (body : List Node) :
    Respects (Above O below) excused (Interpreter.enterWord name body) := by
  intro s t above
  have limit : t.callLimit = s.callLimit := by simp only [callLimit, above.limit]
  unfold Interpreter.enterWord
  rw [limit, above.depth]
  split
  · exact .error above
  · exact .ok ⟨above.bench, above.loops, above.words, rfl, above.limit⟩

theorem enterLoop (limit start : Int32) :
    Respects (Above O below) excused (onMachine (Machine.enterLoop limit start)) := by
  intro s t above
  unfold onMachine Machine.enterLoop
  rw [above.loops]
  by_cases full : maxLoops ≤ s.machine.loops.length
  · simp only [if_pos full]
    exact .error ⟨above.bench, above.loops, above.words, above.depth, above.limit⟩
  · simp only [if_neg full]
    exact .ok ⟨above.bench, rfl, above.words, above.depth, above.limit⟩

theorem loopIndex (depth : Int) :
    Respects (Above O below) excused (onMachine (Machine.loopIndex depth)) := by
  intro s t above
  unfold onMachine Machine.loopIndex
  rw [above.loops]
  cases if 0 ≤ depth then s.machine.loops[depth.toNat]? else none with
  | some l => exact .ok above
  | none => exact .error above

theorem exitLoop {s t : Interpreter} (above : Above O below s t) :
    Above O below { s with machine := s.machine.exitLoop }
      { t with machine := t.machine.exitLoop } :=
  ⟨above.bench, congrArg List.tail above.loops, above.words, above.depth, above.limit⟩

theorem round (body : List Node) :
    Respects (Above O below) excused (Interpreter.round body) := by
  intro s t above
  have done : t.machine.loopDone = s.machine.loopDone := by
    simp only [Machine.loopDone, above.loops]
  unfold Interpreter.round
  rw [done]
  cases s.machine.loopDone with
  | true => exact .ok above.exitLoop
  | false => exact .ok above

theorem stepLoop {s t : Interpreter} (above : Above O below s t) :
    Above O below { s with machine := s.machine.stepLoop }
      { t with machine := t.machine.stepLoop } := by
  unfold Machine.stepLoop
  rw [above.loops]
  split
  · exact above
  · exact ⟨above.bench, rfl, above.words, above.depth, above.limit⟩

theorem abandon (frame : Frame) {s t : Interpreter} (above : Above O below s t) :
    Above O below (s.abandon frame) (t.abandon frame) := by
  cases frame with
  | rest => exact above
  | leave => exact ⟨above.bench, above.loops, above.words, congrArg (· - 1) above.depth, above.limit⟩
  | again => exact above.exitLoop

theorem log_left (silent : Output.Silent O) (line : Text) {s t : Interpreter}
    (above : Above O below s t) : Above O below (s.log line) t := by
  unfold Interpreter.log
  split
  · rename_i logger _
    have related := (silent above.bench.out ⟨logger, line⟩).1
    exact ⟨⟨above.bench.stack, related⟩, above.loops, above.words, above.depth, above.limit⟩
  · exact above

theorem log_right (silent : Output.Silent O) (line : Text) {s t : Interpreter}
    (above : Above O below s t) : Above O below s (t.log line) := by
  unfold Interpreter.log
  split
  · rename_i logger _
    have related := (silent above.bench.out ⟨logger, line⟩).2
    exact ⟨⟨above.bench.stack, related⟩, above.loops, above.words, above.depth, above.limit⟩
  · exact above

theorem log (silent : Output.Silent O) (line line' : Text) {s t : Interpreter}
    (above : Above O below s t) : Above O below (s.log line) (t.log line') :=
  (above.log_left silent line).log_right silent line'

theorem lockstep_of (silent : Output.Silent O)
    (excuse : ∀ stop, Bench.Excused below stop → excused stop)
    (execute : ∀ kind, Respects (Bench.Above O below) excused (Bench.execute kind)) :
    Lockstep (Above O below) excused where
  log := log silent
  push e := onBench ((Bench.local_push e).mono excuse)
  literal text := onBench ((Bench.local_literal text).mono excuse)
  execute kind := onBench (execute kind)
  popNumber op := onBench ((Bench.local_popNumber op).mono excuse)
  pop op := onBench ((Bench.local_pop op).mono excuse)
  find := find
  bind := bind
  enterWord := enterWord
  enterLoop := enterLoop
  loopIndex := loopIndex
  round := round
  stepLoop := stepLoop
  abandon := abandon

theorem lockstep (steady : Output.Steady O) : Lockstep (Above O below) (Bench.Excused below) :=
  lockstep_of steady.trace (fun _ excuse => excuse) (Bench.local_execute steady)

/-- With nothing more below there is nothing to excuse. -/
theorem runNode (steady : Output.Steady O) {s t : Interpreter} (above : Above O [] s t) (n : Node) :
    (t.runNode n).1 = (s.runNode n).1 ∧ Above O [] (s.runNode n).2 (t.runNode n).2 := by
  rcases (lockstep steady).runNode n above with ⟨_, _, more, _⟩ | alike
  · exact absurd rfl more
  · exact alike

end Above

/-- A run that does not end for want of entities ends the same with anything below its stack: with
the same calls of devices, words, loops and depth, and with that still below. -/
theorem runNode_local (n : Node) (s : Interpreter) (below : List Entity)
    (enough : ∀ stop, (s.runNode n).1 = some stop → ¬ stop.IsUnderflow) :
    let t := { s with machine.bench.stack := s.machine.bench.stack ++ below }
    (t.runNode n).1 = (s.runNode n).1 ∧
      Above Output.SameCalls below (s.runNode n).2 (t.runNode n).2 := by
  intro t
  have steady : Output.Steady Output.SameCalls :=
    Output.steady_paired (Console.steady_alike fun _ => rfl)
  have start : Above Output.SameCalls below s t :=
    ⟨⟨rfl, rfl, rfl, .refl _ _⟩, rfl, rfl, rfl, rfl⟩
  rcases (Above.lockstep steady).runNode n start with ⟨stop, ended, _, underflow⟩ | alike
  · exact absurd underflow (enough stop ended)
  · exact alike

def atWork : Interpreter :=
  { machine.bench := { stack := [.number 7, .number 6]
                       out := { leaves := [0], console := { devices := [{}] } } }
    words := [(utf8 "w", .word [.op (.op .mul), .op (.op .emit)])] }

/-- A word takes two numbers and writes their product, whatever is below them. -/
theorem runNode_local_word :
    (atWork.runNode (.call (utf8 "w"))).1 = none ∧
    let t := { atWork with machine.bench.stack := [.number 7, .number 6, .nothing, .string [0]] }
    (t.runNode (.call (utf8 "w"))).1 = none ∧
      Above Output.SameCalls [.nothing, .string [0]]
        (atWork.runNode (.call (utf8 "w"))).2 (t.runNode (.call (utf8 "w"))).2 := by
  have ended : (atWork.runNode (.call (utf8 "w"))).1 = none := by
    rw [runNode_stop]
    iterate 6 refine (congrArg Prod.fst (run_of_more rfl)).trans ?_
    exact congrArg Prod.fst (run_of_ended rfl)
  have enough : ∀ stop, (atWork.runNode (.call (utf8 "w"))).1 = some stop → ¬ stop.IsUnderflow := by
    intro stop stopped
    rw [ended] at stopped
    cases stopped
  obtain ⟨same, above⟩ := runNode_local (.call (utf8 "w")) atWork [.nothing, .string [0]] enough
  exact ⟨ended, same.trans ended, above⟩

end Interpreter
end StackLang
