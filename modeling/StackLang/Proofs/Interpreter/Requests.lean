import StackLang.Proofs.Interpreter.Lockstep
import StackLang.Proofs.Interpreter.Sequence
import StackLang.Proofs.Machine.Requests
import StackLang.Proofs.Output.Events

/-! A run and its output. Only operations ask the output for anything, each of them for one thing at
most. So what requests and lines of the trace keep true of an output, a run keeps true of it. -/
namespace StackLang

/-- Requests keep `P` as long as they are served without an error, and leave `Q` however they are
served. If there is a trace, its lines keep both. -/
structure Output.Keeps (tracing : Option Nat) (P Q : Output → Prop) : Prop where
  weaker {o : Output} (holds : P o) : Q o
  served {o : Output} {r : Request} (holds : P o) (fine : (o.serve r).1.error = none) :
    P (o.serve r).2
  failed {o : Output} {r : Request} (holds : P o) : Q (o.serve r).2
  trace {o : Output} (line : TraceLine) (on : tracing = some line.logger) (holds : P o) :
    P (o.note (.trace line))
  traceFailed {o : Output} (line : TraceLine) (on : tracing = some line.logger) (holds : Q o) :
    Q (o.note (.trace line))

namespace Output

theorem Keeps.always {tracing : Option Nat} {P : Output → Prop}
    (serve : ∀ {o : Output} (r : Request), P o → P (o.serve r).2)
    (trace : ∀ {o : Output} (line : TraceLine), tracing = some line.logger → P o →
      P (o.note (.trace line))) :
    Keeps tracing P P :=
  ⟨id, fun holds _ => serve _ holds, fun holds => serve _ holds, trace, trace⟩

/-- What calls of the leaves keep of the console, requests keep. -/
theorem Keeps.console {leaves : List Nat} {tracing : Option Nat} {P Q : Console → Prop}
    (carries : Console.Carries leaves P Q)
    (trace : ∀ {c : Console} (line : TraceLine), tracing = some line.logger → P c →
      P (c.note (.trace line)))
    (traceFailed : ∀ {c : Console} (line : TraceLine), tracing = some line.logger → Q c →
      Q (c.note (.trace line))) :
    Keeps tracing (fun o => o.leaves = leaves ∧ P o.console)
      (fun o => o.leaves = leaves ∧ Q o.console) where
  weaker holds := ⟨holds.1, carries.weaker holds.2⟩
  served {o r} holds fine := by
    obtain ⟨rfl, holds⟩ := holds
    exact ⟨leaves_serve o r, (carried_serve carries holds r).1 fine⟩
  failed {o r} holds := by
    obtain ⟨rfl, holds⟩ := holds
    exact ⟨leaves_serve o r, (carried_serve carries holds r).2⟩
  trace line on holds := ⟨holds.1, trace line on holds.2⟩
  traceFailed line on holds := ⟨holds.1, traceFailed line on holds.2⟩

end Output

namespace Bench

theorem report_ok (op : Text) (stack : List Entity) {answer : Written × Output}
    (fine : answer.1.error = none) : report op stack answer = .ok () ⟨stack, answer.2⟩ := by
  obtain ⟨⟨taken, error⟩, out⟩ := answer
  cases fine
  rfl

theorem report_error (op : Text) (stack : List Entity) {answer : Written × Output} {e : WriteError}
    (failed : answer.1.error = some e) :
    report op stack answer = .error (.fault ⟨op, .writing e⟩) ⟨stack, answer.2⟩ := by
  obtain ⟨⟨taken, error⟩, out⟩ := answer
  cases failed
  rfl

theorem execute_keeps {tracing : Option Nat} {P Q : Output → Prop} (keeps : Output.Keeps tracing P Q)
    (kind : Kind) {b : Bench} (holds : P b.out) :
    Ensures (execute kind) b (fun _ b' => P b'.out) fun _ b' => Q b'.out := by
  obtain ⟨stack, out⟩ := b
  unfold Ensures
  cases asks_execute kind stack with
  | blind blind =>
    cases blind with
    | ends a rest done =>
      rw [done]
      exact holds
    | stops stop rest stopped other =>
      rw [stopped]
      exact keeps.weaker holds
  | request op rest r asked =>
    rw [asked]
    cases failed : (out.serve r).1.error with
    | none =>
      rw [report_ok op rest failed]
      exact keeps.served holds failed
    | some e =>
      rw [report_error op rest failed]
      exact keeps.failed holds

end Bench

namespace Interpreter

structure SameOutput (s t : Interpreter) : Prop where
  out : t.machine.bench.out = s.machine.bench.out
  tracing : t.tracing = s.tracing

theorem SameOutput.trans {s t u : Interpreter} (first : SameOutput s t) (second : SameOutput t u) :
    SameOutput s u :=
  ⟨second.out.trans first.out, second.tracing.trans first.tracing⟩

abbrev Quiet {α : Type} (act : Action α) : Prop :=
  ∀ s, Ensures act s (fun _ t => SameOutput s t) fun stop t => SameOutput s t ∧ ¬ stop.IsWriting

theorem Quiet.bind {α β : Type} {act : Action α} {next : α → Action β} (first : Quiet act)
    (second : ∀ a, Quiet (next a)) : Quiet (act >>= next) := by
  refine fun s => (first s).bind fun a t same => (second a t).mono ?_ ?_
  · exact fun _ _ later => same.trans later
  · exact fun _ _ later => ⟨same.trans later.1, later.2⟩

theorem quiet_pure {α : Type} (a : α) : Quiet (pure a : Action α) := fun _ => ⟨rfl, rfl⟩

theorem quiet_onBench {α : Type} {act : Bench.Action α} (blind : ∀ stack, Bench.Blind act stack) :
    Quiet (onBench act) := by
  refine fun s => ensures_onBench ?_
  obtain ⟨⟨⟨stack, out⟩, loops⟩, words, depth, limit, tracing⟩ := s
  unfold Ensures
  cases blind stack with
  | ends a rest done =>
    rw [done]
    exact ⟨rfl, rfl⟩
  | stops stop rest stopped other =>
    rw [stopped]
    exact ⟨⟨rfl, rfl⟩, other⟩

theorem quiet_push (e : Entity) : Quiet (onBench (Bench.push e)) :=
  quiet_onBench (Bench.blind_push e)

theorem quiet_popNumber (op : Text) : Quiet (onBench (Bench.popNumber op)) :=
  quiet_onBench (Bench.blind_popNumber op)

theorem quiet_bind (name : Text) (b : Binding) : Quiet (bind name b) := fun _ => ⟨rfl, rfl⟩

theorem quiet_find (name : Text) : Quiet (find name) := by
  intro s
  unfold Ensures find
  cases s.words.find? name with
  | some b => exact ⟨rfl, rfl⟩
  | none => exact ⟨⟨rfl, rfl⟩, id⟩

theorem quiet_enterWord (name : Text) (body : List Node) : Quiet (enterWord name body) := by
  intro s
  unfold Ensures enterWord
  by_cases full : s.callLimit ≤ s.depth
  · rw [if_pos full]
    exact ⟨⟨rfl, rfl⟩, id⟩
  · rw [if_neg full]
    exact ⟨rfl, rfl⟩

theorem quiet_enterLoop (limit start : Int32) :
    Quiet (onMachine (Machine.enterLoop limit start)) := by
  refine fun s => ensures_onMachine ?_
  unfold Ensures Machine.enterLoop
  by_cases full : maxLoops ≤ s.machine.loops.length
  · rw [if_pos full]
    exact ⟨⟨rfl, rfl⟩, id⟩
  · rw [if_neg full]
    exact ⟨rfl, rfl⟩

theorem quiet_loopIndex (depth : Int) : Quiet (onMachine (Machine.loopIndex depth)) := by
  refine fun s => ensures_onMachine ?_
  unfold Ensures Machine.loopIndex
  cases if 0 ≤ depth then s.machine.loops[depth.toNat]? else none with
  | some l => exact ⟨rfl, rfl⟩
  | none => exact ⟨⟨rfl, rfl⟩, id⟩

theorem quiet_round (body : List Node) : Quiet (round body) := by
  intro s
  unfold Ensures round
  cases s.machine.loopDone <;> exact ⟨rfl, rfl⟩

theorem quiet_perform {n : Node} (other : ∀ kind, n ≠ .op kind) : Quiet (perform n) := by
  have pushed (e : Entity) : Quiet (do onBench (Bench.push e); return ([] : List Frame)) :=
    (quiet_push e).bind fun _ => quiet_pure []
  cases n with
  | op kind => exact absurd rfl (other kind)
  | number value => exact pushed _
  | string text => exact (quiet_onBench (Bench.blind_literal text)).bind fun _ => quiet_pure []
  | block body => exact quiet_pure _
  | call name =>
    refine (quiet_find name).bind fun b => ?_
    cases b with
    | «variable» value => exact pushed value
    | word body => exact quiet_enterWord name body
  | define name body => exact (quiet_bind name _).bind fun _ => quiet_pure []
  | branch yes no => exact (quiet_popNumber _).bind fun _ => quiet_pure _
  | loop body =>
    refine (quiet_popNumber _).bind fun start => (quiet_popNumber _).bind fun limit => ?_
    exact (quiet_enterLoop limit start).bind fun _ => quiet_round body
  | index depth => exact (quiet_loopIndex depth).bind fun index => pushed _
  | set name =>
    refine (quiet_onBench (Bench.blind_pop _)).bind fun value => ?_
    exact (quiet_bind name _).bind fun _ => quiet_pure []
  | get name =>
    refine (quiet_find name).bind fun b => ?_
    cases b with
    | «variable» value => exact pushed value
    | word body => exact fun _ => ⟨⟨rfl, rfl⟩, id⟩
  | hole => exact fun _ => ⟨⟨rfl, rfl⟩, id⟩

/-- The output is as described, and the trace still goes where it went. -/
structure Holds (tracing : Option Nat) (P : Output → Prop) (s : Interpreter) : Prop where
  tracing : s.tracing = tracing
  out : P s.machine.bench.out

theorem Holds.same {tracing : Option Nat} {P : Output → Prop} {s t : Interpreter}
    (holds : Holds tracing P s) (same : SameOutput s t) : Holds tracing P t :=
  ⟨same.tracing.trans holds.tracing, same.out ▸ holds.out⟩

theorem Holds.log {tracing : Option Nat} {P : Output → Prop} {s : Interpreter}
    (holds : Holds tracing P s)
    (trace : ∀ {o : Output} (line : TraceLine), tracing = some line.logger → P o →
      P (o.note (.trace line)))
    (line : Text) : Holds tracing P (s.log line) := by
  unfold Interpreter.log
  split
  · rename_i on
    exact ⟨holds.tracing, trace _ (holds.tracing.symm.trans on) holds.out⟩
  · exact holds

theorem sameOutput_abandonAll (frames : List Frame) (s : Interpreter) :
    SameOutput s (frames.foldl abandon s) := by
  induction frames generalizing s with
  | nil => exact ⟨rfl, rfl⟩
  | cons frame frames ih =>
    cases frame with
    | rest => exact ih s
    | leave | again =>
      obtain ⟨out, tracing⟩ := ih (s.abandon _)
      exact ⟨out, tracing⟩

section

variable {tracing : Option Nat} {P Q : Output → Prop} (keeps : Output.Keeps tracing P Q)

include keeps

theorem announce_keeps (n : Node) {s : Interpreter} (holds : Holds tracing P s) :
    Holds tracing P (s.announce n) := by
  cases n with
  | block | hole => exact holds
  | define => exact holds.log keeps.trace _
  | _ =>
    simp only [announce, trace_eq_log]
    exact holds.log keeps.trace _

theorem quiet_keeps {α : Type} {act : Action α} (quiet : Quiet act) {on : Option Nat}
    {s : Interpreter} (holds : Holds on P s) :
    Ensures act s (fun _ t => Holds on P t) fun _ t => Holds on Q t := by
  refine (quiet s).mono (fun _ _ same => holds.same same) fun _ _ same => ?_
  obtain ⟨tracing, out⟩ := holds.same same.1
  exact ⟨tracing, keeps.weaker out⟩

theorem perform_keeps (n : Node) {on : Option Nat} {s : Interpreter} (holds : Holds on P s) :
    Ensures (perform n) s (fun _ t => Holds on P t) fun _ t => Holds on Q t := by
  by_cases operation : ∃ kind, n = .op kind
  · obtain ⟨kind, rfl⟩ := operation
    have executed : Ensures (onBench (Bench.execute kind)) s (fun _ t => Holds on P t)
        fun _ t => Holds on Q t := by
      refine ensures_onBench ((Bench.execute_keeps keeps kind holds.out).mono ?_ ?_)
      · exact fun _ _ out => ⟨holds.tracing, out⟩
      · exact fun _ _ out => ⟨holds.tracing, out⟩
    exact executed.bind fun _ _ holds => holds
  · exact quiet_keeps keeps (quiet_perform fun kind same => operation ⟨kind, same⟩) holds

theorem resume_keeps (frame : Frame) {s : Interpreter} (holds : Holds tracing P s) :
    Ensures (resume frame) s (fun _ t => Holds tracing P t) fun _ t => Holds tracing Q t := by
  cases frame with
  | leave => exact ⟨holds.tracing, holds.out⟩
  | again body =>
    have stepped : SameOutput s { s with machine := s.machine.stepLoop } := by
      refine ⟨?_, rfl⟩
      simp only [Machine.stepLoop]
      split <;> rfl
    exact quiet_keeps keeps (quiet_round body) (holds.same stepped)
  | rest nodes =>
    cases nodes with
    | nil => exact holds
    | cons n ns =>
      have visited : Ensures (visit n) s (fun _ t => Holds tracing P t)
          fun _ t => Holds tracing Q t := perform_keeps keeps n (announce_keeps keeps n holds)
      exact visited.bind fun _ _ holds => holds

theorem step_keeps {frames later : List Frame} {s t : Interpreter} (holds : Holds tracing P s)
    (stepped : step frames s = .more later t) : Holds tracing P t := by
  obtain ⟨frame, waiting, inner, rfl, resumed, rfl⟩ := step_more stepped
  exact (resume_keeps keeps frame holds).ok resumed

theorem run_keeps (frames : List Frame) {s : Interpreter} (holds : Holds tracing P s) :
    ((run frames s).1 = none → Holds tracing P (run frames s).2) ∧
      Holds tracing Q (run frames s).2 := by
  refine run_ensures (P := fun _ t => Holds tracing P t)
    (Q := fun stop t => (stop = none → Holds tracing P t) ∧ Holds tracing Q t) ?_ ?_ frames s holds
  · exact fun _ _ _ _ holds stepped => step_keeps keeps holds stepped
  · intro frames t stop u holds stepped
    rcases step_ended stepped with ⟨rfl, rfl, rfl⟩ | ⟨frame, waiting, _, v, rfl, stopped, rfl, rfl⟩
    · exact ⟨fun _ => holds, holds.tracing, keeps.weaker holds.out⟩
    · have left := (resume_keeps keeps frame holds).error stopped
      exact ⟨nofun, left.same (sameOutput_abandonAll waiting v)⟩

/-- The line about a fault is the last one. -/
theorem runNode_keeps (n : Node) {s : Interpreter} (holds : Holds tracing P s) :
    ((s.runNode n).1 = none → Holds tracing P (s.runNode n).2) ∧
      Holds tracing Q (s.runNode n).2 := by
  have ran := run_keeps keeps [.rest [n]] holds
  unfold runNode
  generalize run [.rest [n]] s = ended at ran ⊢
  obtain ⟨stop, t⟩ := ended
  match stop with
  | none | some .broken => exact ran
  | some (.fault f) => exact ⟨nofun, ran.2.log keeps.traceFailed _⟩

end

end Interpreter
end StackLang
