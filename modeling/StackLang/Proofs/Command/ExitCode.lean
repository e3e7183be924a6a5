import StackLang.Proofs.Command.Sources
import StackLang.Proofs.Interpreter.Ending
import StackLang.Proofs.Output.Answers
import StackLang.Proofs.Session.Stages

/-! The exit code does not lie. It is zero if all went well, from the first source to the last line
of the log, and nothing that is logged later can hide what went wrong before. -/
namespace StackLang

open Console (Fails Goes GoesWell TookAll)

namespace Logger

inductive Call where
  | log (level : Text) (m : Message)
  | error (m : Message)
  | errorIf (f : Option Failure)
  | report (tracing : Bool) (f : Failure)

def act (l : Logger) (c : Console) : Call → Logger × Console
  | .log level m => l.log c level m
  | .error m => l.error c m
  | .errorIf f => l.errorIf c f
  | .report tracing f => l.report c tracing f

theorem exitCode_flush (l : Logger) (c : Console) : (l.flush c).2.1.exitCode = l.exitCode := by
  unfold flush
  split
  · rfl
  · split <;> rfl

theorem exitCode_print (l : Logger) (c : Console) (level message : Text) :
    (l.print c level message).2.1.exitCode = l.exitCode := exitCode_flush _ c

section

variable {l : Logger} (failed : l.exitCode ≠ 0) (c : Console)

include failed

end

theorem flush_answers (l : Logger) (c : Console) :
    (l.flush c).2.1.device = l.device ∧
      ((l.flush c).1 = none ∧ GoesWell c (l.flush c).2.2 ∨
        (l.flush c).1 ≠ none ∧ Goes c (l.flush c).2.2 ∧
          ∃ i, l.device = some i ∧ Fails c (l.flush c).2.2 i) := by
  unfold flush
  split
  · exact ⟨rfl, .inl ⟨rfl, .refl c⟩⟩
  rename_i i device
  split
  · exact ⟨rfl, .inl ⟨rfl, .refl c⟩⟩
  have answer := Console.call_answer c i l.buffer.length (.write i l.buffer)
  have offers (n : Nat) : (Event.write i l.buffer n).offered = some (i, l.buffer.length) := rfl
  refine ⟨rfl, ?_⟩
  simp only [Console.write, answer]
  by_cases full : (c.device i).answer l.buffer.length = ⟨l.buffer.length, none⟩
  · rw [full]
    exact .inl ⟨by simp, Console.goesWell_call offers full⟩
  · have failed := Console.fails_call (c := c) offers full
    refine .inr ⟨fun fine => full ?_, Console.goes_call offers c, i, device, failed⟩
    generalize (c.device i).answer l.buffer.length = answer at fine ⊢
    obtain ⟨taken, error⟩ := answer
    obtain ⟨rfl, whole⟩ := Option.or_eq_none_iff.1 fine
    have all : taken = l.buffer.length := by
      by_contra short
      rw [if_neg short] at whole
      cases whole
    rw [all]

theorem print_answers (l : Logger) (c : Console) (level message : Text) :
    (l.print c level message).2.1.device = l.device ∧
      ((l.print c level message).1 = none ∧ GoesWell c (l.print c level message).2.2 ∨
        (l.print c level message).1 ≠ none ∧ Goes c (l.print c level message).2.2 ∧
          ∃ i, l.device = some i ∧ Fails c (l.print c level message).2.2 i) :=
  flush_answers { l with buffer := ended (l.buffer ++ label l.color level ++ message) } c

theorem log_answers (l : Logger) (c : Console) (level : Text) (m : Message) :
    (l.log c level m).1.device = l.device ∧
      (GoesWell c (l.log c level m).2 ∧ (l.log c level m).1.exitCode = l.exitCode ∨
        Goes c (l.log c level m).2 ∧ (l.log c level m).1.exitCode ≠ 0 ∧
          ∃ i, l.device = some i ∧ Fails c (l.log c level m).2 i) := by
  obtain ⟨device, answers⟩ := print_answers l c level m.text
  have code := exitCode_print l c level m.text
  unfold log
  generalize l.print c level m.text = printed at device answers code ⊢
  obtain ⟨error, l', c'⟩ := printed
  cases error with
  | none =>
    rcases answers with ⟨-, well⟩ | ⟨failed, -⟩
    · exact ⟨device, .inl ⟨well, code⟩⟩
    · exact absurd rfl failed
  | some e =>
    rcases answers with ⟨fine, -⟩ | ⟨-, goes, i, same, fails⟩
    · cases fine
    · -- the error takes the place of the line, and may fail as well
      obtain ⟨device', again⟩ :=
        print_answers { l' with buffer := [] } c' (utf8 "ERROR") e.cause.message
      have later : Goes c' _ := again.elim (fun well => well.2.goes) fun failed => failed.2.1
      exact ⟨device'.trans device, .inr ⟨goes.trans later, nofun, i, same, fails.goesOn later⟩⟩

end Logger

namespace Interpreter

theorem runTree_goesWell {s : Interpreter} (honest : ∀ i, (s.console.device i).Honest) {n : Node}
    (fine : (s.runTree n).1 = none) : GoesWell s.console (s.runTree n).2.console := by
  have started := runTree_started s n
  rw [started.result, Option.or_eq_none_iff] at fine
  have keeps : Output.Keeps s.tracing _ _ :=
    .console (Console.carries_goesWell honest s.machine.bench.out.leaves)
      (fun _ _ well => well.trans (Console.goesWell_note _ rfl))
      fun _ _ goes => goes.trans (Console.goesWell_note _ rfl).goes
  have ran := ((runNode_keeps keeps n ⟨rfl, rfl, .refl _⟩).1 (started.own.1 fine.1)).out.2
  exact ran.trans (Output.goesWell_flushEach _ _)

/-- What a program can leave behind can be written down. -/
theorem WellTyped.dump {s : Interpreter} (typed : s.WellTyped) : ∃ t, s.dump? = some t := by
  have line (entry : Text × Binding) (mem : entry ∈ s.words) :
      ∃ t, entry.2.line? entry.1 = some t := by
    obtain ⟨name, b⟩ := entry
    have named := typed.names _ mem
    have sound := typed.bindings _ mem
    cases b with
    | «variable» value => exact ⟨_, rfl⟩
    | word body =>
      obtain ⟨t, source, -⟩ := Node.source?_tokens (.define named sound)
      exact ⟨_, congrArg (Option.map _) source⟩
  have lines (entries : Dictionary)
      (each : ∀ entry ∈ entries, ∃ t, entry.2.line? entry.1 = some t) :
      ∃ ts, entries.mapM (fun entry => entry.2.line? entry.1) = some ts := by
    induction entries with
    | nil => exact ⟨[], rfl⟩
    | cons entry entries ih =>
      obtain ⟨⟨t, first⟩, later⟩ := List.forall_mem_cons.1 each
      obtain ⟨ts, rest⟩ := ih later
      exact ⟨t :: ts, by simp [List.mapM_cons, first, rest]⟩
  obtain ⟨ts, all⟩ := lines s.words line
  unfold Interpreter.dump? StackLang.dump?
  rw [all]
  exact ⟨_, rfl⟩

end Interpreter

namespace Command

structure Tallies (base : Console) (sink : Option Nat) (l : Logger) (c : Console) : Prop where
  device : l.device = sink
  goes : Goes base c
  code : l.exitCode = 0 ↔ ∀ i, sink = some i → TookAll base c i

namespace Tallies

variable {base c d : Console} {sink : Option Nat} {l : Logger}

theorem goesWell (tallies : Tallies base sink l c) (well : GoesWell c d) :
    Tallies base sink l d := by
  refine ⟨tallies.device, tallies.goes.trans well.goes, tallies.code.trans ?_⟩
  simp only [well.tookAll tallies.goes]

theorem log (tallies : Tallies base sink l c) (level : Text) (m : Message) :
    Tallies base sink (l.log c level m).1 (l.log c level m).2 := by
  obtain ⟨same, ⟨well, code⟩ | ⟨goes, failed, i, there, fails⟩⟩ := Logger.log_answers l c level m
  · obtain ⟨-, goes, tallied⟩ := tallies.goesWell well
    exact ⟨same.trans tallies.device, goes, code ▸ tallied⟩
  · refine ⟨same.trans tallies.device, tallies.goes.trans goes, ?_⟩
    refine ⟨fun zero => absurd zero failed, fun took => ?_⟩
    exact absurd (took i (tallies.device ▸ there)) (fails.not_tookAll tallies.goes)

end Tallies

theorem observed_tallies {base : Console} (honest : ∀ i, (base.device i).Honest)
    (sink : Option Nat) : Observed (Tallies base sink) fun _ _ => True where
  log level m tallies := tallies.log level m
  dump l :=
    { weaker := fun _ => trivial
      fine := fun {c i size event} tallies leaf offers fine => by
        have carries := Console.carries_goesWell (tallies.goes.honest honest) [1]
        exact tallies.goesWell (carries.fine (.refl c) leaf offers fine)
      failed := fun _ _ _ => trivial }

/-- The code tells the truth so far, and the session is one that programs can leave behind. -/
structure Sound (base : Console) (sink : Option Nat) (c : Command) : Prop where
  tallies : At (Tallies base sink) c
  typed : c.session.WellTyped

namespace Sound

variable {base : Console} {sink : Option Nat} (honest : ∀ i, (base.device i).Honest)

include honest

theorem runTree {c e : Command} {nodes : List Node} (sound : Sound base sink c)
    (printable : ∀ n ∈ nodes, n.Printable) (ran : c.runTree (.block nodes) = (none, e)) :
    Sound base sink e := by
  have observed := observed_tallies honest sink
  have fine : (c.session.runTree (.block nodes)).1 = none := congrArg Prod.fst ran
  have well := Interpreter.runTree_goesWell (sound.tallies.goes.honest honest) fine
  have typed := (sound.typed.runNode printable).2.same (.flush _)
  let after : Command := { c with session := (c.session.runTree (.block nodes)).2 }
  have told : At (Tallies base sink) after := sound.tallies.goesWell well
  obtain ⟨beside, holds⟩ := logTrace_at observed c.out.console.traceLines.length told
  cases congrArg Prod.snd ran
  exact ⟨holds, typed.same beside.contents⟩

end Sound

/-- The state is written down if that is asked for, the last line is ended if it has been begun, and
the output is flushed, all of it without an error. -/
structure Finishes (d : Command) (newline : Bool) : Prop where
  dumps (asked : d.settings.dumpState = true) : ∃ t, d.session.dump? = some t ∧
    (Output.write { leaves := [1], console := d.out.console } t).1.error = none
  ends (asked : newline = true) (begun : d.dumpState.out.tally.all Tally.endsLine = false) :
    (d.dumpState.out.write [Text.newline]).1.error = none
  flushes : (if newline then d.dumpState.endLine else d.dumpState).session.flush.1 = none

namespace Sound

variable {base : Console} {sink : Option Nat} (honest : ∀ i, (base.device i).Honest)

include honest

theorem dumpState {d : Command} (sound : Sound base sink d) {newline : Bool}
    (finishes : Finishes d newline) : Sound base sink d.dumpState := by
  have observed := observed_tallies honest sink
  obtain ⟨beside, fine, -⟩ := dumping_at observed
    (fun carries holds => dumped_writeState carries holds d.session) sound.tallies
  rw [dumpState_eq]
  by_cases on : d.settings.dumpState = true
  · obtain ⟨t, shown, written⟩ := finishes.dumps on
    have none : (d.dumping (writeState d.session)).1 = none := by
      simp only [dumping, writeState, shown]
      exact written
    rw [if_pos on, none]
    exact ⟨fine none, sound.typed.same beside.contents⟩
  · rw [if_neg on]
    exact sound

theorem endLine {c : Command} (sound : Sound base sink c)
    (fine : c.out.tally.all Tally.endsLine = false → (c.out.write [Text.newline]).1.error = none) :
    Sound base sink c.endLine := by
  have carries := Console.carries_goesWell (sound.tallies.goes.honest honest) c.out.leaves
  have written := (Output.carried_write carries (.refl _) [Text.newline]).1
  unfold Command.endLine
  by_cases ended : c.out.tally.all Tally.endsLine = true
  · rw [if_pos ended]
    exact sound
  · have none := fine (Bool.eq_false_iff.2 ended)
    have told := sound.tallies.goesWell (written none)
    rw [if_neg ended]
    simp only [none]
    exact ⟨told, sound.typed.same ⟨rfl, rfl, rfl, rfl⟩⟩

theorem finish {d : Command} (sound : Sound base sink d) {newline : Bool}
    (finishes : Finishes d newline) :
    At (Tallies base sink) (d.finish newline) := by
  have dumped := sound.dumpState honest finishes
  have ended : Sound base sink (if newline then d.dumpState.endLine else d.dumpState) := by
    cases newline with
    | true => exact dumped.endLine honest (finishes.ends rfl)
    | false => exact dumped
  have none := finishes.flushes
  unfold Command.finish
  generalize (if newline then d.dumpState.endLine else d.dumpState) = c at ended none ⊢
  have told := ended.tallies.goesWell (Output.goesWell_flushEach c.out.console c.out.leaves)
  unfold Command.flush
  simp only [none]
  exact told

end Sound

end Command

namespace Command

end Command

end StackLang
