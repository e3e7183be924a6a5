import StackLang.Proofs.Interpreter.Below
import StackLang.Proofs.Interpreter.Requests
import StackLang.Proofs.Session.Typing

/-! The trace is only watched: without its lines a traced run is the run itself. And it tells the
truth about the order, for a node is announced before it writes anything. -/
namespace StackLang

def Event.isOfRun (tracing : Option Nat) : Event → Bool
  | .trace line => tracing == some line.logger
  | e => e.isWrite

abbrev Output.Since (kind : Event → Bool) (o p : Output) : Prop :=
  p.leaves = o.leaves ∧ Console.Since kind o.console p.console

theorem Output.keeps_since {kind : Event → Bool} {tracing : Option Nat} (o : Output)
    (writes : ∀ e, e.isWrite = true → kind e = true)
    (traces : ∀ line, tracing = some line.logger → kind (.trace line) = true) :
    Keeps tracing (Since kind o) (Since kind o) := by
  have carries : Console.Carries o.leaves (Console.Since kind o.console)
      (Console.Since kind o.console) := by
    refine .always fun since _ offers => since.call _ _ fun n => ?_
    exact writes _ (Event.isWrite_of_offered (offers n))
  exact .console carries (fun line on since => since.note (traces line on))
    fun line on since => since.note (traces line on)

namespace Interpreter

abbrev console (s : Interpreter) : Console := s.machine.bench.out.console

theorem keeps_isOfRun (tracing : Option Nat) (o : Output) :
    Output.Keeps tracing (Output.Since (Event.isOfRun tracing) o)
      (Output.Since (Event.isOfRun tracing) o) := by
  refine Output.keeps_since o (fun e write => ?_) fun line on => ?_
  · cases e with
    | trace | flush => cases write
    | write | byte | character => rfl
  · exact beq_iff_eq.2 on

theorem runNode_since (s : Interpreter) (n : Node) :
    Output.Since (Event.isOfRun s.tracing) s.machine.bench.out (s.runNode n).2.machine.bench.out :=
  (runNode_keeps (keeps_isOfRun s.tracing _) n ⟨rfl, rfl, .refl _ _⟩).2.out

theorem runTree_events (s : Interpreter) (n : Node) :
    (s.runTree n).2.console.events =
      ((s.machine.bench.out.leaves.filter fun i =>
        ((s.runNode n).2.console.device i).canFlush).map .flush).reverse ++
          (s.runNode n).2.console.events := by
  have flushed : (s.runTree n).2.console.events = (Output.flushEach (s.runNode n).2.console
    (s.runNode n).2.machine.bench.out.leaves).2.events := rfl
  rw [flushed, (runNode_since s n).1, Output.flushEach_events]

/-- From the console `c` on, both computations have come to the same, and without the lines of the
trace the events of the first are those of the second. -/
structure OnlyTraces (c : Console) (traced plain : Option Failure × Interpreter) : Prop where
  failure : traced.1 = plain.1
  contents : SameContents plain.2 traced.2
  devices : traced.2.console.devices = plain.2.console.devices
  events : ∃ log, traced.2.console.events = log ++ c.events ∧
    plain.2.console.events = log.filter Event.isCall ++ c.events

theorem erased_log {c d e : Console}
    (calls : e.events.filter Event.isCall = d.events.filter Event.isCall)
    {logger : Nat} (traced : Console.Since (Event.isOfRun (some logger)) c d)
    (plain : Console.Since (Event.isOfRun none) c e) :
    ∃ log, d.events = log ++ c.events ∧ e.events = log.filter Event.isCall ++ c.events := by
  obtain ⟨log, -, events⟩ := traced
  obtain ⟨log', writes, events'⟩ := plain
  have called : log'.filter Event.isCall = log' := by
    refine List.filter_eq_self.2 fun e mem => ?_
    have write := writes e mem
    cases e with
    | trace line => cases write
    | write | byte | character | flush => rfl
  rw [events, events', List.filter_append, List.filter_append, called] at calls
  have same := List.append_cancel_right calls
  exact ⟨log, events, by rw [events', same]⟩

theorem filter_flushes (leaves : List Nat) :
    ((leaves.map Event.flush).reverse).filter Event.isCall = (leaves.map Event.flush).reverse := by
  refine List.filter_eq_self.2 fun e mem => ?_
  obtain ⟨i, -, rfl⟩ := List.mem_map.1 (List.mem_reverse.1 mem)
  rfl

section

variable {s t : Interpreter} {logger : Nat} (on : s.tracing = some logger)
  (off : t = { s with tracing := none })

include off

theorem runNode_untraced (n : Node) :
    (t.runNode n).1 = (s.runNode n).1 ∧
      Above Output.SameCalls [] (s.runNode n).2 (t.runNode n).2 := by
  have start : Above Output.SameCalls [] s t := by
    subst off
    exact ⟨⟨(List.append_nil _).symm, rfl, rfl, .refl _ _⟩, rfl, rfl, rfl, rfl⟩
  have steady : Output.Steady Output.SameCalls :=
    Output.steady_paired (Console.steady_alike fun _ => rfl)
  exact start.runNode steady n

include on

theorem runNode_erased (n : Node) :
    ∃ log, (s.runNode n).2.console.events = log ++ s.console.events ∧
      (t.runNode n).2.console.events = log.filter Event.isCall ++ s.console.events := by
  obtain ⟨-, traced⟩ := runNode_since s n
  obtain ⟨-, plain⟩ := runNode_since t n
  have untraced : t.tracing = none := off ▸ rfl
  have start : t.machine.bench.out.console = s.machine.bench.out.console := off ▸ rfl
  rw [on] at traced
  rw [untraced, start] at plain
  exact erased_log (runNode_untraced off n).2.bench.out.console.events traced plain

theorem runTree_onlyTraces (n : Node) :
    OnlyTraces s.console (s.runTree n) (t.runTree n) := by
  obtain ⟨log, events, events'⟩ := runNode_erased on off n
  obtain ⟨stop, ⟨stack, leaves, -, devices, -⟩, loops, words, depth, -⟩ := runNode_untraced off n
  have flushed := runTree_events s n
  have flushed' := runTree_events t n
  have start : t.machine.bench.out.leaves = s.machine.bench.out.leaves := off ▸ rfl
  have device (i : Nat) : (t.runNode n).2.console.device i = (s.runNode n).2.console.device i :=
    Console.device_eq devices i
  rw [events, ← List.append_assoc] at flushed
  rw [events', ← List.append_assoc, start] at flushed'
  simp only [device] at flushed'
  obtain ⟨error, left⟩ : (t.runNode n).2.flush.1 = (s.runNode n).2.flush.1 ∧
      (t.runTree n).2.console.devices = (s.runTree n).2.console.devices :=
    Output.flush_alike leaves devices
  refine ⟨?_, ⟨?_, loops.symm, words.symm, depth.symm⟩, ?_, _, flushed, ?_⟩
  · rw [runTree_fst, runTree_fst, stop, error]
  · exact (stack.trans (List.append_nil _)).symm
  · exact left.symm
  · rw [flushed', List.filter_append, filter_flushes]

theorem exec_onlyTraces (src : Text) : OnlyTraces s.console (s.exec src) (t.exec src) := by
  unfold exec
  cases read src with
  | ok n => exact runTree_onlyTraces on off n
  | error f =>
    let line := utf8 "halt error: " ++ f.message
    have here : s.log line =
        { s with machine.bench.out := s.machine.bench.out.note (.trace ⟨logger, line⟩) } :=
      log_on on line
    have there : t.log line = t := by
      subst off
      rfl
    simp only [line] at here there
    simp only [here, there]
    subst off
    exact ⟨rfl, ⟨rfl, rfl, rfl, rfl⟩, rfl, [.trace _], rfl, rfl⟩

end

/-- The line that the logger gets before a node is run. -/
def announcement (s : Interpreter) (logger : Nat) : Node → List Event
  | .block _ | .hole => []
  | .define name _ => [.trace ⟨logger, utf8 "define " ++ name⟩]
  | n => [.trace ⟨logger, s.execLine n⟩]

theorem announce_events {s : Interpreter} {logger : Nat} (on : s.tracing = some logger) (n : Node) :
    (s.announce n).console.events = s.announcement logger n ++ s.console.events := by
  have logged (line : Text) :
      (s.log line).console.events = .trace ⟨logger, line⟩ :: s.console.events := by
    rw [log_on on]
    rfl
  cases n with
  | block | hole => rfl
  | define name => exact logged _
  | _ =>
    simp only [announce, trace_eq_log]
    exact logged _

def Progress.state : Progress → Interpreter
  | .more _ s | .ended _ s => s

/-- A step runs one node: after its announcement there are its own writes, and nothing else. -/
theorem step_announced {t : Interpreter} {logger : Nat} (on : t.tracing = some logger) (m : Node)
    (ns : List Node) (waiting : List Frame) :
    ∃ own, (∀ e ∈ own, e.isWrite = true) ∧
      (step (.rest (m :: ns) :: waiting) t).state.console.events =
        own ++ (t.announcement logger m ++ t.console.events) := by
  let since := Output.Since Event.isWrite (t.announce m).machine.bench.out
  have keeps : Output.Keeps none since since := Output.keeps_since _ (fun _ write => write) nofun
  have performed := perform_keeps keeps m (s := t.announce m) ⟨rfl, rfl, .refl _ _⟩
  rw [← announce_events on]
  simp only [step, resume_rest, visit]
  unfold Ensures at performed
  cases acted : perform m (t.announce m) with
  | ok inner u =>
    rw [acted] at performed
    exact performed.out.2
  | error why u =>
    rw [acted] at performed
    have left := (performed.same (sameOutput_abandonAll waiting u)).out
    exact left.2

/-- What has happened stays, and a run goes on from there. -/
theorem run_grows (frames : List Frame) (s : Interpreter) :
    ∃ log, (run frames s).2.console.events = log ++ s.console.events := by
  have ran := run_keeps (keeps_isOfRun s.tracing _) frames (s := s) ⟨rfl, rfl, .refl _ _⟩
  obtain ⟨-, log, -, events⟩ := ran.2.out
  exact ⟨log, events⟩

theorem run_after_step (frames : List Frame) (s : Interpreter) :
    ∃ log, (run frames s).2.console.events = log ++ (step frames s).state.console.events := by
  cases stepped : step frames s with
  | more later t =>
    rw [run_of_more stepped]
    exact run_grows later t
  | ended stop t =>
    rw [run_of_ended stepped]
    exact ⟨[], rfl⟩

theorem runTree_after_run (s : Interpreter) (n : Node) :
    ∃ log, (s.runTree n).2.console.events = log ++ (run [.rest [n]] s).2.console.events := by
  have logged (t : Interpreter) (line : Text) :
      ∃ log, (t.log line).console.events = log ++ t.console.events := by
    unfold log
    split
    · exact ⟨[.trace _], rfl⟩
    · exact ⟨[], rfl⟩
  obtain ⟨log, ran⟩ : ∃ log, (s.runNode n).2.console.events =
      log ++ (run [.rest [n]] s).2.console.events := by
    unfold runNode
    split
    · rename_i f t stopped
      rw [stopped]
      exact logged t _
    · exact ⟨[], rfl⟩
  rw [runTree_events, ran, ← List.append_assoc]
  exact ⟨_, rfl⟩

theorem tracing_of_reaches {first frames : List Frame} {s t : Interpreter}
    (reached : Reaches first s frames t) : t.tracing = s.tracing := by
  have keeps (tracing : Option Nat) : Output.Keeps tracing (fun _ => True) fun _ => True :=
    .always (fun _ _ => trivial) fun _ _ _ => trivial
  have holds : Holds s.tracing (fun _ => True) t :=
    reached.keeps (P := fun _ => Holds s.tracing fun _ => True)
      (fun _ _ _ _ holds stepped => step_keeps (keeps _) holds stepped) ⟨rfl, trivial⟩
  exact holds.tracing

/-- Tracing makes no difference but for the lines of the trace: run with a trace and without one, a
tree and a source fail alike and leave the same stack, loops and words, and the calls of the devices
are the same in the same order. In the trace every node comes before what it writes, and behind all
that was written before it. -/
theorem tracing_is_unobservable (s : Interpreter) (logger : Nat) :
    let traced := { s with tracing := some logger }
    let plain := { s with tracing := none }
    (∀ n, OnlyTraces s.console (traced.runTree n) (plain.runTree n)) ∧
    (∀ src, OnlyTraces s.console (traced.exec src) (plain.exec src)) ∧
    ∀ n m ns waiting t, Reaches [.rest [n]] traced (.rest (m :: ns) :: waiting) t →
      ∃ own later, (∀ e ∈ own, e.isWrite = true) ∧
        (step (.rest (m :: ns) :: waiting) t).state.console.events =
          own ++ (t.announcement logger m ++ t.console.events) ∧
        (traced.runTree n).2.console.events =
          later ++ (step (.rest (m :: ns) :: waiting) t).state.console.events := by
  intro traced plain
  refine ⟨fun n => runTree_onlyTraces (s := traced) rfl rfl n,
    fun src => exec_onlyTraces (s := traced) rfl rfl src, ?_⟩
  intro n m ns waiting t reached
  obtain ⟨own, writes, announced⟩ := step_announced (tracing_of_reaches reached) m ns waiting
  obtain ⟨last, ended⟩ := runTree_after_run traced n
  obtain ⟨more, ran⟩ := run_after_step (.rest (m :: ns) :: waiting) t
  rw [reached.run_eq, ran, ← List.append_assoc] at ended
  exact ⟨own, _, writes, announced, ended⟩

end Interpreter
end StackLang
