import StackLang.Proofs.Interpreter.Below
import StackLang.Proofs.Interpreter.Requests

/-! A run whose output fails does what it would do with an output that takes everything, up to the
first write that goes wrong; there it stops, and the other run goes on. -/
namespace StackLang

open Output (Echoes Served Sound Willing)

namespace Bench

section

variable {o p : Output} (sound : o.Sound) (willing : p.Willing)

include sound willing

theorem respects_execute (kind : Kind) :
    Respects (Above (Echoes o p none) []) Stop.IsWriting (execute kind) := by
  rintro ⟨stack, out⟩ ⟨_, out'⟩ ⟨rfl, echoes⟩
  rw [List.append_nil]
  have level {rest : List Entity} {here there : Output} (echoes : Echoes o p none here there) :
      Above (Echoes o p none) [] ⟨rest, here⟩ ⟨rest, there⟩ := ⟨(List.append_nil rest).symm, echoes⟩
  cases asks_execute kind stack with
  | blind blind =>
    cases blind with
    | ends a rest done =>
      rw [done, done]
      exact .ok (level echoes)
    | stops stop rest stopped other =>
      rw [stopped, stopped]
      exact .error (level echoes)
  | request op rest r asked =>
    obtain ⟨fine, served⟩ := echoes.serve sound willing r
    rw [asked, asked, report_ok op rest fine]
    cases failed : (out.serve r).1.error with
    | none =>
      rw [failed] at served
      rw [report_ok op rest failed]
      exact .ok (level served)
    | some e =>
      rw [report_error op rest failed]
      exact .excused trivial

/-- Where the first output fails the second one does not. -/
theorem execute_writing {kind : Kind} {b b' c : Bench} {stop : Stop}
    (above : Above (Echoes o p none) [] b c) (stopped : execute kind b = .error stop b')
    (writing : stop.IsWriting) :
    ∃ c' e, execute kind c = .ok () c' ∧ Echoes o p (some e) b'.out c'.out := by
  obtain ⟨stack, out⟩ := b
  obtain ⟨_, out'⟩ := c
  obtain ⟨rfl, echoes⟩ := above
  rw [List.append_nil]
  cases asks_execute kind stack with
  | blind blind =>
    cases blind with
    | ends a rest done =>
      rw [done] at stopped
      cases stopped
    | stops why rest also other =>
      rw [also] at stopped
      cases stopped
      exact absurd writing other
  | request op rest r asked =>
    obtain ⟨fine, served⟩ := echoes.serve sound willing r
    rw [asked, report_ok op rest fine]
    rw [asked] at stopped
    cases failed : (out.serve r).1.error with
    | none =>
      rw [report_ok op rest failed] at stopped
      cases stopped
    | some e =>
      rw [report_error op rest failed] at stopped
      rw [failed] at served
      cases stopped
      exact ⟨_, e, rfl, served⟩

end

end Bench

namespace Interpreter

theorem perform_writing {n : Node} {s t : Interpreter} {stop : Stop}
    (stopped : perform n s = .error stop t) (writing : stop.IsWriting) : ∃ kind, n = .op kind := by
  by_contra other
  have quiet : Quiet (perform n) := quiet_perform fun kind same => other ⟨kind, same⟩
  exact ((quiet s).error stopped).2 writing

theorem resume_writing {frame : Frame} {s t : Interpreter} {stop : Stop}
    (stopped : resume frame s = .error stop t) (writing : stop.IsWriting) :
    ∃ kind ns, frame = .rest (.op kind :: ns) ∧
      onBench (Bench.execute kind) (s.announce (.op kind)) = .error stop t := by
  cases frame with
  | leave => cases stopped
  | again body => exact absurd writing ((quiet_round body _).error stopped).2
  | rest nodes =>
    cases nodes with
    | nil => cases stopped
    | cons n ns =>
      rw [resume_rest] at stopped
      cases visited : visit n s with
      | ok inner u =>
        rw [visited] at stopped
        cases stopped
      | error why u =>
        rw [visited] at stopped
        cases stopped
        obtain ⟨kind, rfl⟩ := perform_writing visited writing
        refine ⟨kind, ns, rfl, ?_⟩
        change EStateM.bind _ _ _ = _ at visited
        unfold EStateM.bind at visited
        split at visited
        · cases visited
        · rename_i failed
          cases visited
          exact failed

theorem onBench_error {α : Type} {act : Bench.Action α} {s t : Interpreter} {stop : Stop}
    (failed : onBench act s = .error stop t) :
    act s.machine.bench = .error stop t.machine.bench := by
  simp only [onBench, onMachine, Machine.onBench] at failed
  cases acted : act s.machine.bench with
  | ok a bench =>
    rw [acted] at failed
    cases failed
  | error why bench =>
    rw [acted] at failed
    cases failed
    rfl

theorem resume_op {kind : Kind} {s : Interpreter} {b : Bench} (ns : List Node)
    (done : Bench.execute kind (s.announce (.op kind)).machine.bench = .ok () b) :
    resume (.rest (.op kind :: ns)) s =
      .ok [.rest ns] { s.announce (.op kind) with machine.bench := b } := by
  have performed :
      visit (.op kind) s = .ok [] { s.announce (.op kind) with machine.bench := b } := by
    change EStateM.bind _ _ _ = _
    simp only [EStateM.bind, onBench, onMachine, Machine.onBench, done]
    rfl
  rw [resume_rest, performed]
  rfl

section

variable {o p : Output} (sound : o.Sound) (willing : p.Willing)

include sound willing

theorem lockstep_echoes : Lockstep (Above (Echoes o p none) []) Stop.IsWriting :=
  Above.lockstep_of Echoes.trace (fun _ excuse => absurd rfl excuse.1)
    (Bench.respects_execute sound willing)

/-- The runs end alike, or the first one stops at a write that went wrong and is behind the
other. -/
theorem run_echoes (frames : List Frame) {s t : Interpreter}
    (above : Above (Echoes o p none) [] s t) :
    (∃ stop e, (run frames s).1 = some stop ∧ stop.IsWriting ∧ Echoes o p (some e)
      (run frames s).2.machine.bench.out (run frames t).2.machine.bench.out) ∨
    (run frames t).1 = (run frames s).1 ∧
      Above (Echoes o p none) [] (run frames s).2 (run frames t).2 := by
  have lock := lockstep_echoes sound willing
  refine (lock.abreast.run frames trivial trivial above).imp ?_ id
  rintro ⟨ran, writing, stopped, reached, related⟩
  rename_i stop frame waiting u v w
  obtain ⟨kind, ns, rfl, failed⟩ := resume_writing stopped writing
  have announced := lock.announce (.op kind) related
  obtain ⟨b, e, done, echoes⟩ :=
    Bench.execute_writing sound willing announced.bench (onBench_error failed) writing
  -- the second run goes on from here, and its output can only grow
  have stepped : step (.rest (.op kind :: ns) :: waiting) v =
      .more ([.rest ns] ++ waiting) { v.announce (.op kind) with machine.bench := b } := by
    rw [step, resume_op ns done]
  have keeps (tracing : Option Nat) : Output.Keeps tracing (Served b.out) (Served b.out) :=
    .always (fun r served => (served.serve (echoes.willing willing) r).2)
      fun line _ served => served.trace line
  have grown := (run_keeps (keeps _) ([.rest ns] ++ waiting)
    (s := { v.announce (.op kind) with machine.bench := b }) ⟨rfl, .refl b.out⟩).2.out
  rw [← run_of_more stepped, ← reached.run_eq] at grown
  refine ⟨stop, e, congrArg Prod.fst ran, writing, ?_⟩
  rw [ran, (sameOutput_abandonAll waiting w).out]
  exact echoes.behind (by simp) grown

end

end Interpreter
end StackLang
