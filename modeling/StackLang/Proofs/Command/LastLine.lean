import StackLang.Proofs.Command.Sources
import StackLang.Proofs.Interpreter.Ending
import StackLang.Proofs.Interpreter.Requests
import StackLang.Proofs.Output.Tally
import StackLang.Proofs.Session.Lockstep
import StackLang.Proofs.Session.Tracing

/-! The last line. On the first device a command looks like its programs, run one after the other
with nothing logged or dumped around them. Behind what they write it ends the last line, if that has
been begun. -/
namespace StackLang

open Console (SameAt)

/-- The logger writes elsewhere, and the device is as it was in `base`. -/
structure Logger.Spares (i : Nat) (base : Console) (l : Logger) (c : Console) : Prop where
  aside : l.device ≠ some i
  same : SameAt i base c

namespace Logger.Spares

variable {i : Nat} {base : Console} {l : Logger} {c : Console} (spares : Spares i base l c)

include spares

theorem flush : Spares i base (l.flush c).2.1 (l.flush c).2.2 := by
  unfold Logger.flush
  split
  · exact ⟨spares.aside, spares.same⟩
  · rename_i j device
    have other : j ≠ i := fun same => spares.aside (same ▸ device)
    split
    · exact spares
    · exact ⟨spares.aside, spares.same.trans (.call_other other _ fun _ => rfl)⟩

theorem print (level message : Text) :
    Spares i base (l.print c level message).2.1 (l.print c level message).2.2 :=
  flush (l := { l with buffer := ended (l.buffer ++ label l.color level ++ message) })
    ⟨spares.aside, spares.same⟩

theorem log (level : Text) (m : Message) :
    Spares i base (l.log c level m).1 (l.log c level m).2 := by
  have first := spares.print level m.text
  unfold Logger.log
  generalize l.print c level m.text = printed at first ⊢
  obtain ⟨error, l', c'⟩ := printed
  cases error with
  | none => exact first
  | some e =>
    have emptied : Spares i base { l' with buffer := [] } c' := ⟨first.aside, first.same⟩
    obtain ⟨aside, same⟩ := emptied.print (utf8 "ERROR") e.cause.message
    exact ⟨aside, same⟩

theorem errorIf (f : Option Failure) :
    Spares i base (l.errorIf c f).1 (l.errorIf c f).2 := by
  cases f with
  | none => exact spares
  | some f =>
    obtain ⟨aside, same⟩ := spares.print (utf8 "ERROR") (Message.text { template := f.message })
    exact ⟨aside, same⟩

theorem report (tracing : Bool) (f : Failure) :
    Spares i base (l.report c tracing f).1 (l.report c tracing f).2 :=
  report_keeps (P := fun r => Spares i base r.1 r.2) tracing (spares.errorIf (some f))
    fun _ level m kept => kept.log level m

end Logger.Spares

open Logger (Spares)

namespace Output

abbrev CallsFirst : Output → Output → Prop := PairedOn [0] (SameAt 0)

theorem steady_callsFirst : Steady CallsFirst := steady_pairedOn (Console.steadyOn_sameAt 0)

theorem flushes_callsFirst : Flushes CallsFirst := by
  refine flushes_pairedOn (Console.steadyOn_sameAt 0) fun same i leaf => ?_
  cases List.mem_singleton.1 leaf
  exact same.flush

end Output

namespace Interpreter

def runTrees (s : Interpreter) (ns : List Node) : Interpreter :=
  ns.foldl (fun s n => (s.runTree n).2) s

variable {i : Nat} {base : Console} {s : Interpreter}

theorem runTree_counted (counted : Output.Counted i base s.machine.bench.out) (n : Node) :
    Output.Counted i base (s.runTree n).2.machine.bench.out := by
  have keeps : Output.Keeps s.tracing (Output.Counted i base) (Output.Counted i base) :=
    .always (fun r counted => counted.serve r) fun line _ counted => counted.trace line
  obtain ⟨own, counts⟩ := (runNode_keeps keeps n ⟨rfl, counted⟩).2.out
  exact ⟨_, counts.flush⟩

theorem runTrees_counted (counted : Output.Counted i base s.machine.bench.out) (ns : List Node) :
    Output.Counted i base (s.runTrees ns).machine.bench.out := by
  induction ns generalizing s with
  | nil => exact counted
  | cons n ns ih => exact ih (runTree_counted counted n)

end Interpreter

namespace Command

/-- The programs that a command gets to run: those of its sources, up to the first one that cannot
be loaded or fails. -/
def trees (c : Command) : List Text → List Node
  | [] => []
  | name :: rest =>
    match c.load name with
    | (.error _, _) => []
    | (.ok (_, n), d) => n :: if (d.runTree n).1 = none then (d.runTree n).2.trees rest else []

/-- The log is elsewhere, and the session is where the programs by themselves have come to. -/
structure Follows (programs : Interpreter) (c : Command) : Prop where
  aside : c.log.device ≠ some 0
  session : programs.Above Output.CallsFirst [] c.session

theorem observed_spares (base : Console) : Observed (Spares 0 base) (Spares 0 base) where
  log level m spares := spares.log level m
  dump _ := .always fun {c i size event} spares leaf offers => by
    cases List.mem_singleton.1 leaf
    have device (n : Nat) : (event n).device? = some 1 := Event.device?_of_offered (offers n)
    exact ⟨spares.aside, spares.same.trans (.call_other (by decide) size device)⟩

namespace Follows

variable {programs : Interpreter} {c d : Command} (follows : Follows programs c)

include follows

theorem spares : At (Spares 0 programs.console) c :=
  ⟨follows.aside, follows.session.bench.out.paired.console⟩

theorem beside (beside : Beside c d) (spares : At (Spares 0 programs.console) d) :
    Follows programs d := by
  obtain ⟨⟨stack, leaves, same, tally, -⟩, loops, words, depth, limit⟩ := follows.session
  obtain ⟨log, stdin, console, rfl⟩ := beside
  exact ⟨spares.aside, ⟨⟨stack, leaves, same, tally, spares.same⟩, loops, words, depth, limit⟩⟩

theorem load (name : Text) : Follows programs (c.load name).2 := by
  obtain ⟨beside, -, spares⟩ := load_at (observed_spares programs.console) follows.spares name
  exact follows.beside beside spares

theorem onward {p s : Interpreter} (session : p.Above Output.CallsFirst [] s) :
    Follows p { c with session := s } := ⟨follows.aside, session⟩

theorem runTree (n : Node) : Follows (programs.runTree n).2 (c.runTree n).2 := by
  have ran := follows.onward
    (follows.session.runTree Output.steady_callsFirst Output.flushes_callsFirst n).2
  obtain ⟨beside, spares⟩ := logTrace_at (observed_spares (programs.runTree n).2.console)
    c.out.console.traceLines.length ran.spares
  exact ran.beside beside spares

theorem report (f : Failure) : Follows programs
    (c.logging fun l console => l.report console c.settings.trace f) :=
  follows.beside (beside_logging c _) (follows.spares.report c.settings.trace f)

theorem errorIf (e : Option WriteError) : Follows programs (c.errorIf e) :=
  follows.beside (beside_logging c _) (follows.spares.errorIf _)

theorem dumpState : Follows programs c.dumpState := by
  obtain ⟨beside, -, spares⟩ := dumping_at (observed_spares programs.console)
    (fun carries holds => dumped_writeState carries holds c.session) follows.spares
  rw [dumpState_eq]
  split
  · exact (follows.beside beside spares).errorIf _
  · exact follows

theorem endLine : Follows { programs with machine.bench.out := programs.machine.bench.out.endLine }
    c.endLine := by
  have out : Output.CallsFirst programs.machine.bench.out c.out := follows.session.bench.out
  unfold Command.endLine Output.endLine
  rw [out.paired.tally]
  by_cases ended : programs.machine.bench.out.tally.all Tally.endsLine = true
  · rw [if_pos ended, if_pos ended]
    exact follows
  · rw [if_neg ended, if_neg ended]
    obtain ⟨-, written⟩ := Output.steady_callsFirst.write out [Text.newline]
    obtain ⟨⟨stack, -⟩, loops, words, depth, limit⟩ := follows.session
    have session : Interpreter.Above Output.CallsFirst []
        { programs with machine.bench.out := (programs.machine.bench.out.write [Text.newline]).2 }
        { c.session with machine.bench.out := (c.out.write [Text.newline]).2 } :=
      ⟨⟨stack, written⟩, loops, words, depth, limit⟩
    exact (follows.onward session).errorIf _

theorem flush : Follows programs.flush.2 c.flush := by
  obtain ⟨-, session⟩ := follows.session.flushed Output.flushes_callsFirst
  exact (follows.onward session).errorIf _

end Follows

theorem follows_runSources (names : List Text) {programs : Interpreter} {c : Command}
    (follows : Follows programs c) :
    Follows (programs.runTrees (c.trees names)) (c.runSources names) := by
  induction names generalizing programs c with
  | nil => exact follows
  | cons name names ih =>
    have loaded := follows.load name
    unfold runSources trees
    rw [runSource_eq]
    generalize c.load name = result at loaded ⊢
    rcases result with ⟨f | ⟨src, n⟩, d⟩
    · exact loaded.report f
    · have ran := loaded.runTree n
      simp only
      generalize d.runTree n = result at ran ⊢
      obtain ⟨failure, e⟩ := result
      cases failure with
      | none => exact ih ran
      | some f => exact ran.report _

theorem follows_finish {programs : Interpreter} {c : Command} (follows : Follows programs c)
    (newline : Bool) :
    let out := programs.machine.bench.out
    Follows { programs with machine.bench.out := if newline then out.endLine else out }.flush.2
      (c.finish newline) := by
  have dumped := follows.dumpState
  cases newline with
  | true => exact dumped.endLine.flush
  | false => exact dumped.flush

variable (w : World) (settings : Settings) (log : Logger) (console : Console)

theorem follows_start (aside : log.device ≠ some 0) :
    Follows (start w settings log console).session (start w settings log console) :=
  ⟨aside, ⟨⟨(List.append_nil _).symm, rfl, rfl, rfl, .refl 0 _⟩, rfl, rfl, rfl, rfl⟩⟩

theorem counts_start :
    Output.Counts 0 console [] (start w settings log console).session.machine.bench.out :=
  ⟨rfl, .refl _, (List.append_nil _).symm, ⟨{}, rfl, fun _ => rfl⟩, fun _ => rfl⟩

end Command

/-- Let the log go elsewhere. Then the first device is called for what the programs write by
themselves. After that it is offered a newline exactly if one is wanted, and what it has accepted is
neither empty nor ends in a newline; and it is flushed, if it can be. So if it takes everything, it
holds what the programs write, perhaps with one newline behind, and the last line is ended if that
is wanted. Of what a device discards there is no record. -/
theorem last_line_is_ended (w : World) (settings : Settings) (log : Logger) (console : Console)
    (names : List Text) (newline : Bool) (aside : log.device ≠ some 0) :
    let start := Command.start w settings log console
    let sources := if names = [] then [utf8 "-"] else names
    let programs := start.session.runTrees (start.trees sources)
    let outcome := start.run names newline
    ∃ own : List Event,
      let accepted := own.flatMap Event.data
      let begun := newline = true ∧ accepted ≠ [] ∧ accepted.getLast? ≠ some Text.newline
      let text := accepted ++ if begun then [Text.newline] else []
      programs.console.eventsOf 0 = console.eventsOf 0 ++ own ∧
      outcome.console.eventsOf 0 = console.eventsOf 0 ++ own ++
        (if begun then [.write 0 [Text.newline] ((programs.console.device 0).answer 1).taken]
          else []) ++
        (if (console.device 0).canFlush then [.flush 0] else []) ∧
      ((console.device 0).TakesAll → outcome.console.dataOf 0 = console.dataOf 0 ++ text ∧
        (newline = true → text = [] ∨ text.getLast? = some Text.newline)) := by
  intro start sources programs outcome
  obtain ⟨own, counts⟩ := Interpreter.runTrees_counted
    ⟨[], Command.counts_start w settings log console⟩ (start.trees sources)
  have follows := Command.follows_runSources sources
    (Command.follows_start w settings log console aside)
  have same : SameAt 0 _ outcome.console := (Command.follows_finish follows newline).spares.same
  have ended := counts.ended newline
  refine ⟨own, counts.events, ?_, fun all => ⟨?_, fun wanted => ?_⟩⟩
  · rw [List.append_assoc _ own, List.append_assoc]
    exact same.events.trans ended.flush.events
  · have taken : ((programs.console.device 0).answer 1).taken = 1 := by
      rw [Device.answer_of_takesAll (all.later counts.later)]
    -- the closing flush is an event of the device, but brings it no data
    have data := same.data.trans ended.flush.data
    rw [List.flatMap_append, List.flatMap_append] at data
    simp only [Event.flatMap_data_ite, Event.data, ite_self, List.append_nil] at data
    refine data.trans ?_
    rw [taken]
    rfl
  · subst wanted
    simp only [true_and]
    split
    · exact .inr List.getLast?_concat
    · rename_i whole
      rw [List.append_nil]
      by_contra other
      exact whole ⟨fun empty => other (.inl empty), fun line => other (.inr line)⟩

def cutShort : World where
  files := [(utf8 "p.st", utf8 "12 .")]
  stdout := { script := [.upToAndRefuse 1 (utf8 "disk full")] }

/-- The program is stopped in the middle of its only write, and the line is ended behind that. -/
theorem last_line_is_ended_cutShort :
    let outcome := (Command.start cutShort {} { device := some 1 } cutShort.console).run
      [utf8 "p.st"] true
    outcome.console.eventsOf 0 = [.write 0 (utf8 "12") 1, .write 0 [Text.newline] 1] := by
  intro outcome
  let start := Command.start cutShort {} { device := some 1 } cutShort.console
  let tree : Node := .block [.number 12, .op (.op .emit)]
  have lexed : lex (utf8 "12 .") = .ok [{ kind := .number, pos := ⟨1, 1⟩, num := 12 },
      { kind := .op .emit, pos := ⟨1, 4⟩ }, { kind := .eof, pos := ⟨1, 5⟩ }] := by decide +kernel
  have loaded : start.load (utf8 "p.st") = (.ok (⟨utf8 "p.st", utf8 "12 ."⟩, tree), start) :=
    Command.load_plain rfl lexed rfl rfl rfl
  have trees : start.trees [utf8 "p.st"] = [tree] := by
    rw [Command.trees, loaded]
    simp only [Command.trees, ite_self]
  let written := (start.out.write (utf8 "12")).2
  have ran : (Interpreter.runWithin 7 [.rest [tree]] start.session).map
      (fun result => (result.2.machine.bench.out, result.2.tracing)) =
        some (written, none) := by decide +kernel
  obtain ⟨⟨stop, t⟩, ended, result⟩ := Option.map_eq_some_iff.1 ran
  obtain ⟨out, tracing⟩ : t.machine.bench.out = written ∧ t.tracing = none := Prod.mk.inj result
  have stopped : (start.session.runNode tree).2.machine.bench.out = written := by
    rw [Interpreter.runNode, Interpreter.run_of_runWithin ended]
    cases stop with
    | none => exact out
    | some stop =>
      cases stop with
      | broken => exact out
      | fault f => simpa [Interpreter.log, tracing] using out
  have programs : (start.session.runTrees (start.trees [utf8 "p.st"])).console =
      written.console := by
    rw [trees]
    change (start.session.runNode tree).2.machine.bench.out.flush.2.console = _
    rw [stopped]
    rfl
  obtain ⟨own, alone, events, -⟩ := last_line_is_ended cutShort {} { device := some 1 }
    cutShort.console [utf8 "p.st"] true (by decide)
  rw [if_neg (List.cons_ne_nil _ _), programs] at alone events
  have once : written.console.eventsOf 0 = [.write 0 (utf8 "12") 1] := by decide +kernel
  obtain rfl : [Event.write 0 (utf8 "12") 1] = own := once.symm.trans alone
  refine events.trans ?_
  decide +kernel

end StackLang
