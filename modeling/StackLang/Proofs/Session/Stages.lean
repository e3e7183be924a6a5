import StackLang.Proofs.Machine.Naming
import StackLang.Proofs.Session.Pieces
import StackLang.Proofs.Session.Tracing
import StackLang.Proofs.Tree.Faults

/-! The stage of a failure tells how far a source has come. Nothing is done before there is a tree,
and from then on all failures are the run's, but for what the last flush leaves to be said. -/
namespace StackLang

theorem WriteError.eq_of_cause {e e' : WriteError} (same : e.cause = e'.cause) : e = e' := by
  cases e <;> cases e' <;> cases same <;> rfl

namespace Interpreter

/-- The failure points into the text, and nothing has been done but to trace it. -/
structure TurnedDown (s : Interpreter) (stage : Stage) (r : Option Failure × Interpreter) :
    Prop where
  failure : ∃ f site, r.1 = some f ∧ f.firstSite? = some site ∧ site.stage = stage ∧
    site.pos.Counted
  contents : SameContents s r.2
  devices : r.2.console.devices = s.console.devices
  events : Console.Since (fun e => !e.isCall) s.console r.2.console

theorem turnedDown_log (s : Interpreter) {stage : Stage} {pos : Pos} (counted : pos.Counted)
    (inner : Failure) (line : Text) :
    TurnedDown s stage (some (.fault { stage, pos } inner), s.log line) := by
  refine ⟨⟨_, _, rfl, rfl, rfl, counted⟩, .log s line, ?_, ?_⟩
  · unfold log
    split <;> rfl
  · unfold log
    split
    · exact (Console.Since.refl _ _).note rfl
    · exact .refl _ _

/-- What the run itself fails with, before the output is flushed. -/
def ownFailure (s : Interpreter) (n : Node) : Option Failure :=
  (ending (s.runNode n).1).isolate (utf8 "stacky")

/-- The first error that flushing the devices gives. -/
def flushFailure (s : Interpreter) : Option WriteError :=
  s.console.flushFailure s.machine.bench.out.leaves

def flushes (s : Interpreter) : List Event :=
  ((s.machine.bench.out.leaves.filter fun i => (s.console.device i).canFlush).map .flush).reverse

def IsRuntime (f : Failure) : Prop := ∃ op, f.firstSite? = some { stage := .run, op }

/-- The tree is run: failures are its own, unless flushing fails behind a run that went well. The
devices that can be flushed are flushed once each and in order, behind all that was written. -/
structure Started (s : Interpreter) (n : Node) (r : Option Failure × Interpreter) : Prop where
  own : s.ownFailure n = none ↔ (s.runNode n).1 = none
  result : r.1 = (s.ownFailure n).or (s.flushFailure.map fun e => .cause e.cause)
  runtime {f : Failure} (failed : r.1 = some f) :
    IsRuntime f ∨ ∃ e, s.flushFailure = some e ∧ f = .cause e.cause
  closing (e : WriteError) :
    r.1 = some (.cause e.cause) ↔ s.ownFailure n = none ∧ s.flushFailure = some e
  events : ∃ log, (∀ e ∈ log, e.isOfRun s.tracing = true) ∧
    r.2.console.events = s.flushes ++ (log ++ s.console.events)

theorem ownFailure_cases (s : Interpreter) (n : Node) :
    (s.runNode n).1 = none ∧ s.ownFailure n = none ∨
      ∃ f, (s.runNode n).1 ≠ none ∧ s.ownFailure n = some f ∧ IsRuntime f := by
  unfold ownFailure
  cases (s.runNode n).1 with
  | none => exact .inl ⟨rfl, rfl⟩
  | some stop =>
    refine .inr ?_
    cases stop with
    | broken => exact ⟨_, nofun, rfl, _, rfl⟩
    | fault f => exact ⟨_, nofun, isolate_fault (Failure.firstAbort?_ofFault f), _, rfl⟩

/-- The devices that can be flushed stay the same, and so does what they are going to say to it. -/
theorem runNode_flushing (s : Interpreter) (n : Node) (i : Nat) :
    ((s.runNode n).2.console.device i).canFlush = (s.console.device i).canFlush ∧
      ((s.runNode n).2.console.device i).flushAnswer = (s.console.device i).flushAnswer := by
  let same (c : Console) : Prop := (c.device i).canFlush = (s.console.device i).canFlush ∧
    (c.device i).flushAnswer = (s.console.device i).flushAnswer
  have carries : Console.Carries s.machine.bench.out.leaves same same := by
    refine .always fun {c j size event} holds _ _ => ?_
    simp only [same]
    rcases Console.device_call c j size event i with still | next
    · rw [still]
      exact holds
    · rw [next]
      exact holds
  have keeps : Output.Keeps s.tracing _ _ :=
    .console carries (fun _ _ holds => holds) fun _ _ holds => holds
  exact (runNode_keeps keeps n ⟨rfl, rfl, rfl, rfl⟩).2.out.2

theorem runTree_result (s : Interpreter) (n : Node) :
    (s.runTree n).1 = (s.ownFailure n).or (s.flushFailure.map fun e => .cause e.cause) := by
  obtain ⟨leaves, -⟩ := runNode_since s n
  have error : (s.runNode n).2.flush.1 = s.flushFailure := by
    change (Output.flushEach _ _).1 = _
    rw [Output.flushEach_error, leaves]
    simp only [flushFailure, Console.flushFailure, runNode_flushing s n]
  rw [runTree_fst, error]
  rfl

theorem runTree_closing (s : Interpreter) (n : Node) (e : WriteError) :
    (s.runTree n).1 = some (.cause e.cause) ↔ s.ownFailure n = none ∧ s.flushFailure = some e := by
  rw [runTree_result]
  rcases ownFailure_cases s n with ⟨-, fine⟩ | ⟨g, -, stopped, op, site⟩
  · rw [fine, Option.none_or, Option.map_eq_some_iff]
    constructor
    · rintro ⟨e', flushed, same⟩
      rw [flushed, WriteError.eq_of_cause (Failure.cause.inj same)]
      exact ⟨rfl, rfl⟩
    · rintro ⟨-, flushed⟩
      exact ⟨e, flushed, rfl⟩
  · -- a failure of the run has a site, and the error of a flush has none
    rw [stopped, Option.some_or]
    constructor
    · intro same
      cases same
      cases site
    · rintro ⟨fine, -⟩
      cases fine

theorem runTree_started (s : Interpreter) (n : Node) : Started s n (s.runTree n) := by
  obtain ⟨-, log, writes, events⟩ := runNode_since s n
  refine ⟨?_, runTree_result s n, ?_, runTree_closing s n, log, writes, ?_⟩
  · rcases ownFailure_cases s n with ⟨ended, fine⟩ | ⟨f, stopped, failed, -⟩
    · simp only [ended, fine]
    · simp [stopped, failed]
  · intro f failed
    rw [runTree_result] at failed
    rcases ownFailure_cases s n with ⟨-, fine⟩ | ⟨g, -, stopped, runtime⟩
    · rw [fine, Option.none_or] at failed
      obtain ⟨e, flushed, rfl⟩ := Option.map_eq_some_iff.1 failed
      exact .inr ⟨e, flushed, rfl⟩
    · rw [stopped, Option.some_or] at failed
      cases failed
      exact .inl runtime
  · rw [runTree_events]
    simp only [runNode_flushing s n, events, flushes]

theorem exec_lexFault (s : Interpreter) {src : Text} {e : LexFault} (failed : lex src = .error e) :
    TurnedDown s .lex (s.exec src) := by
  have rejected : read src = .error (.ofLex e) := by rw [read, failed]
  rw [exec, rejected]
  exact turnedDown_log s (lex_fault failed) _ _

theorem exec_parseFault (s : Interpreter) {src : Text} {ts : List Token} {e : ParseFault}
    (lexed : lex src = .ok ts) (failed : parse ts = .error e) :
    TurnedDown s .parse (s.exec src) := by
  have rejected : read src = .error (.ofParse e) := by
    rw [read, lexed]
    simp only [failed]
  rw [exec, rejected]
  exact turnedDown_log s (parse_fault lexed failed) _ _

theorem exec_started (s : Interpreter) {src : Text} {ts : List Token} {nodes : List Node}
    (lexed : lex src = .ok ts) (parsed : parse ts = .ok nodes) :
    Started s (.block nodes) (s.exec src) := by
  rw [exec_parsed lexed parsed]
  exact runTree_started s (.block nodes)

theorem TurnedDown.stage_eq {s : Interpreter} {stage : Stage} {r : Option Failure × Interpreter}
    (down : TurnedDown s stage r) {f : Failure} (failed : r.1 = some f) : f.stage = stage := by
  obtain ⟨g, site, also, first, same, -⟩ := down.failure
  cases failed.symm.trans also
  rw [Failure.stage, first]
  exact same

theorem Started.stage_eq {s : Interpreter} {n : Node} {r : Option Failure × Interpreter}
    (started : Started s n r) {f : Failure} (failed : r.1 = some f) :
    f.stage = .run ∨ f.stage = .other 0 (by decide) := by
  rcases started.runtime failed with ⟨op, site⟩ | ⟨e, -, rfl⟩
  · rw [Failure.stage, site]
    exact .inl rfl
  · exact .inr rfl

/-- Whatever the source, the stage of its failure is the one that was to be expected. -/
theorem stage_of_exec (s : Interpreter) (src : Text) {f : Failure}
    (failed : (s.exec src).1 = some f) :
    (f.stage = .lex ∧ ∃ e, lex src = .error e) ∨
    (f.stage = .parse ∧ ∃ ts e, lex src = .ok ts ∧ parse ts = .error e) ∨
      f.stage = .run ∨ f.stage = .other 0 (by decide) := by
  cases lexed : lex src with
  | error e => exact .inl ⟨(exec_lexFault s lexed).stage_eq failed, e, rfl⟩
  | ok ts =>
    refine .inr ?_
    cases parsed : parse ts with
    | error e => exact .inl ⟨(exec_parseFault s lexed parsed).stage_eq failed, ts, e, rfl, parsed⟩
    | ok nodes => exact .inr ((exec_started s lexed parsed).stage_eq failed)

/-- A failure tells by its stage how far the source has come. A source that cannot be read is turned
down at a place in its text, and nothing has been done then. Any other source is run, and what fails
then is the run, with no place known; or it is the last flush, if nothing else failed. A primitive
that stops the run is named in the fault, unless it breaks off over something that has no text. -/
theorem stages_are_told (s : Interpreter) (src : Text) :
    ((∃ f, (s.exec src).1 = some f ∧ f.stage = .lex) ↔ ∃ e, lex src = .error e) ∧
    ((∃ f, (s.exec src).1 = some f ∧ f.stage = .parse) ↔
      ∃ ts e, lex src = .ok ts ∧ parse ts = .error e) ∧
    (∀ e, lex src = .error e → TurnedDown s .lex (s.exec src)) ∧
    (∀ ts e, lex src = .ok ts → parse ts = .error e → TurnedDown s .parse (s.exec src)) ∧
    (∀ ts nodes, lex src = .ok ts → parse ts = .ok nodes →
      Started s (.block nodes) (s.exec src)) ∧
    ∀ kind m stop m', Machine.onBench (Bench.execute kind) m = .error stop m' →
      (∃ f, stop = .fault f ∧
        (Failure.ofFault f).firstSite? = some { stage := .run, op := kind.title }) ∨
      stop = .broken ∧ kind = .op .emit ∧ m.bench.Mute := by
  refine ⟨⟨?_, ?_⟩, ⟨?_, ?_⟩, fun e failed => exec_lexFault s failed,
    fun ts e lexed failed => exec_parseFault s lexed failed,
    fun ts nodes lexed parsed => exec_started s lexed parsed, ?_⟩
  · rintro ⟨f, failed, stage⟩
    rcases stage_of_exec s src failed with ⟨-, unread⟩ | ⟨other, -⟩ | other | other
    · exact unread
    all_goals cases stage.symm.trans other
  · rintro ⟨e, unread⟩
    have down := exec_lexFault s unread
    obtain ⟨f, -, failed, -⟩ := down.failure
    exact ⟨f, failed, down.stage_eq failed⟩
  · rintro ⟨f, failed, stage⟩
    rcases stage_of_exec s src failed with ⟨other, -⟩ | ⟨-, unread⟩ | other | other
    · cases stage.symm.trans other
    · exact unread
    all_goals cases stage.symm.trans other
  · rintro ⟨ts, e, lexed, unread⟩
    have down := exec_parseFault s lexed unread
    obtain ⟨f, -, failed, -⟩ := down.failure
    exact ⟨f, failed, down.stage_eq failed⟩
  · intro kind m stop m' stopped
    have executed := Bench.execute_stops kind m.bench
    unfold Machine.onBench at stopped
    split at stopped
    · cases stopped
    · rename_i failed
      cases stopped
      refine (executed.error failed).imp ?_ id
      rintro ⟨trouble, rfl⟩
      exact ⟨_, rfl, rfl⟩

-- the second flush of device 0 would have failed, but device 1 is asked before
example : flushFailure { machine.bench.out :=
    { leaves := [0, 1, 0],
      console := { devices := [{ kind := .flushing, flushes := [none, some (utf8 "late")] },
        { kind := .flushing, flushes := [some (utf8 "first")] }] } } } =
    some (.device (utf8 "first")) := by decide

end Interpreter
end StackLang
