import StackLang.Proofs.Command.Aside
import StackLang.Proofs.Output.Events
import StackLang.Proofs.Session.Steps

/-! The sources of a command, one after the other. What is done about a source before it is run can
change the log and the console, and takes standard input away; nothing else of the command. -/
namespace StackLang

def Dumped {ε : Type} (P Q : Console → Prop) (r : Option ε × Output) : Prop :=
  (r.1 = none → P r.2.console) ∧ Q r.2.console

section

variable {P Q : Console → Prop} {o : Output} (carries : Console.Carries o.leaves P Q)
  (holds : P o.console)

include carries holds

theorem dumped_writePieces (ts : List Text) : Dumped P Q (writePieces o ts) := by
  induction ts generalizing o with
  | nil => exact ⟨fun _ => holds, carries.weaker holds⟩
  | cons t ts ih =>
    have first := Output.carried_write carries holds t
    have leaves := Output.leaves_write o t
    unfold writePieces
    generalize o.write t = written at first leaves ⊢
    obtain ⟨⟨taken, error⟩, p⟩ := written
    cases error with
    | some e => exact ⟨(Option.some_ne_none e).elim, first.2⟩
    | none => exact ih (leaves ▸ carries) (first.1 rfl)

theorem dumped_writeTokens (ts : List Token) : Dumped P Q (writeTokens o ts) := by
  rw [writeTokens_eq]
  exact dumped_writePieces carries holds _

theorem dumped_writeTree (n : Node) : Dumped P Q (writeTree o n) := by
  unfold writeTree
  cases n.document? with
  | none => exact ⟨nofun, carries.weaker holds⟩
  | some doc =>
    have pieces := dumped_writePieces carries holds doc.pieces.1
    simp only
    generalize writePieces o doc.pieces.1 = written at pieces ⊢
    obtain ⟨error, p⟩ := written
    cases error with
    | some e => exact ⟨nofun, pieces.2⟩
    | none => exact ⟨fun _ => pieces.1 rfl, pieces.2⟩

theorem dumped_writeState (s : Interpreter) : Dumped P Q (writeState s o) := by
  unfold writeState
  cases s.dump? with
  | some t => exact Output.carried_write carries holds t
  | none => exact ⟨fun _ => holds, carries.weaker holds⟩

end

namespace Command

def Beside (c d : Command) : Prop :=
  ∃ log stdin console, d = { c with log, stdin }.withConsole console

namespace Beside

theorem refl (c : Command) : Beside c c := ⟨c.log, c.stdin, c.out.console, rfl⟩

theorem trans {c d e : Command} (first : Beside c d) (second : Beside d e) : Beside c e := by
  obtain ⟨_, _, _, rfl⟩ := first
  obtain ⟨log, stdin, console, rfl⟩ := second
  exact ⟨log, stdin, console, rfl⟩

theorem contents {c d : Command} (beside : Beside c d) : SameContents c.session d.session := by
  obtain ⟨_, _, _, rfl⟩ := beside
  exact ⟨rfl, rfl, rfl, rfl⟩

end Beside

theorem beside_logging (c : Command) (act : Logger → Console → Logger × Console) :
    Beside c (c.logging act) := ⟨_, c.stdin, _, rfl⟩

theorem beside_dumping {ε : Type} (c : Command) (act : Output → Option ε × Output) :
    Beside c (c.dumping act).2 := ⟨c.log, c.stdin, _, rfl⟩

/-- What is true of the log and the console, and stays so when a line is logged, and when something
is written to the second device without an error. -/
structure Observed (J K : Logger → Console → Prop) : Prop where
  log {l : Logger} {c : Console} (level : Text) (m : Message) (holds : J l c) :
    J (l.log c level m).1 (l.log c level m).2
  dump (l : Logger) : Console.Carries [1] (J l) (K l)

abbrev At (J : Logger → Console → Prop) (c : Command) : Prop := J c.log c.out.console

section

variable {J K : Logger → Console → Prop} (observed : Observed J K)

include observed

theorem dumping_at {ε : Type} {act : Output → Option ε × Output} {c : Command}
    (writes : ∀ {o : Output}, Console.Carries o.leaves (J c.log) (K c.log) → J c.log o.console →
      Dumped (J c.log) (K c.log) (act o)) (holds : At J c) :
    Beside c (c.dumping act).2 ∧
      ((c.dumping act).1 = none → At J (c.dumping act).2) ∧ At K (c.dumping act).2 :=
  ⟨beside_dumping c act,
    writes (o := { leaves := [1], console := c.out.console }) (observed.dump c.log) holds⟩

theorem dumpTokens_at (name : Text) (ts : List Token) {c : Command} (holds : At J c) :
    Beside c (c.dumpTokens name ts).2 ∧
      ((c.dumpTokens name ts).1 = none → At J (c.dumpTokens name ts).2) ∧
        At K (c.dumpTokens name ts).2 := by
  unfold dumpTokens
  split
  · have headed : At J (c.heading "Tokens" name) := observed.log _ _ holds
    obtain ⟨beside, fine, rest⟩ := dumping_at observed
      (fun carries holds => dumped_writeTokens carries holds ts) headed
    refine ⟨(beside_logging c _).trans beside, fun none => ?_, rest⟩
    exact fine (Option.map_eq_none_iff.1 none)
  · exact ⟨.refl c, fun _ => holds, (observed.dump c.log).weaker holds⟩

theorem dumpTree_at (name : Text) (n : Node) {c : Command} (holds : At J c) :
    Beside c (c.dumpTree name n).2 ∧
      ((c.dumpTree name n).1 = none → At J (c.dumpTree name n).2) ∧
        At K (c.dumpTree name n).2 := by
  unfold dumpTree
  split
  · have headed : At J (c.heading "AST" name) := observed.log _ _ holds
    obtain ⟨beside, fine, rest⟩ := dumping_at observed
      (fun carries holds => dumped_writeTree carries holds n) headed
    refine ⟨(beside_logging c _).trans beside, fun none => ?_, rest⟩
    exact fine (Option.map_eq_none_iff.1 none)
  · exact ⟨.refl c, fun _ => holds, (observed.dump c.log).weaker holds⟩

theorem logTrace_at (seen : Nat) {c : Command} (holds : At J c) :
    Beside c (c.logTrace seen) ∧ At J (c.logTrace seen) := by
  unfold logTrace
  generalize c.out.console.traceLines.drop seen = lines
  induction lines generalizing c with
  | nil => exact ⟨.refl c, holds⟩
  | cons line lines ih =>
    have logged : At J (c.logging fun l console =>
        l.log console (utf8 "TRACE") (Message.tagged ⟨line, []⟩ c.runName)) :=
      observed.log _ _ holds
    obtain ⟨beside, rest⟩ := ih logged
    exact ⟨(beside_logging c _).trans beside, rest⟩

end

theorem beside_open? (c : Command) (name : Text) : Beside c (c.open? name).2 := by
  unfold open?
  split
  · exact ⟨c.log, .ok [], c.out.console, rfl⟩
  · exact .refl c

theorem at_open? {J : Logger → Console → Prop} {c : Command} (holds : At J c) (name : Text) :
    At J (c.open? name).2 := by
  unfold open?
  split <;> exact holds

/-- Opens and reads a source, and dumps it as configured: the source and its tree. -/
def load (c : Command) (name : Text) : Except Failure (Source × Node) × Command :=
  match c.open? name with
  | (.error f, c) => (.error f, c)
  | (.ok src, c) =>
    match lex src.text with
    | .error e => (.error (src.locate (.ofLex e)), c)
    | .ok ts =>
      match c.dumpTokens src.name ts with
      | (some f, c) => (.error f, c)
      | (none, c) =>
        match parse ts with
        | .error e => (.error (src.locate (.ofParse e)), c)
        | .ok nodes =>
          match c.dumpTree src.name (.block nodes) with
          | (some f, c) => (.error f, c)
          | (none, c) => (.ok (src, .block nodes), c)

theorem runSource_eq (c : Command) (name : Text) :
    c.runSource name = match c.load name with
      | (.error f, d) => (some f, d)
      | (.ok (src, n), d) => ((d.runTree n).1.map src.locate, (d.runTree n).2) := by
  unfold runSource load
  cases c.open? name with
  | mk opened d =>
    cases opened with
    | error f => rfl
    | ok src =>
      simp only
      cases lex src.text with
      | error e => rfl
      | ok ts =>
        simp only
        rcases d.dumpTokens src.name ts with ⟨_ | f, d⟩
        · simp only
          cases parse ts with
          | error e => rfl
          | ok nodes =>
            simp only
            rcases d.dumpTree src.name (.block nodes) with ⟨_ | f, d⟩ <;> rfl
        · rfl

theorem load_plain {c : Command} {name : Text} {src : Source} {ts : List Token} {nodes : List Node}
    (opens : c.open? name = (.ok src, c)) (lexes : lex src.text = .ok ts)
    (parses : parse ts = .ok nodes) (tokens : c.settings.dumpTokens = false)
    (tree : c.settings.dumpTree = false) : c.load name = (.ok (src, .block nodes), c) := by
  simp only [load, opens, lexes, dumpTokens, tokens, parses, dumpTree, tree, Bool.false_eq_true,
    if_false]

theorem load_at {J K : Logger → Console → Prop} (observed : Observed J K) {c : Command}
    (holds : At J c) (name : Text) :
    Beside c (c.load name).2 ∧ (∀ read, (c.load name).1 = .ok read → At J (c.load name).2) ∧
      At K (c.load name).2 := by
  have opened := at_open? holds name
  have beside := beside_open? c name
  unfold load
  generalize c.open? name = result at opened beside ⊢
  obtain ⟨result, d⟩ := result
  have weaker {e : Command} (holds : At J e) : At K e := (observed.dump e.log).weaker holds
  cases result with
  | error f => exact ⟨beside, nofun, weaker opened⟩
  | ok src =>
    simp only
    cases lex src.text with
    | error e => exact ⟨beside, nofun, weaker opened⟩
    | ok ts =>
      obtain ⟨also, listed, rest⟩ := dumpTokens_at observed src.name ts opened
      have beside := beside.trans also
      simp only
      generalize d.dumpTokens src.name ts = result at listed beside rest ⊢
      obtain ⟨failure, d⟩ := result
      cases failure with
      | some f => exact ⟨beside, nofun, rest⟩
      | none =>
        have listed := listed rfl
        simp only
        cases parse ts with
        | error e => exact ⟨beside, nofun, weaker listed⟩
        | ok nodes =>
          obtain ⟨also, drawn, rest⟩ := dumpTree_at observed src.name (.block nodes) listed
          have beside := beside.trans also
          simp only
          generalize d.dumpTree src.name (.block nodes) = result at drawn beside rest ⊢
          obtain ⟨failure, d⟩ := result
          cases failure with
          | some f => exact ⟨beside, nofun, rest⟩
          | none => exact ⟨beside, fun _ _ => drawn rfl, rest⟩

def finish (d : Command) (newline : Bool) : Command :=
  (if newline then d.dumpState.endLine else d.dumpState).flush

end Command
end StackLang
