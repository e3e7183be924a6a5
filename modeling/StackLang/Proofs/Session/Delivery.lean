import StackLang.Proofs.Interpreter.Delivery
import StackLang.Proofs.Session.Typing

/-! Write failures only cut output short. Whatever the devices of a session refuse, they hold the
beginning of what the program would have written, and unless the run stopped over it they hold all
of it, and nothing else is different. -/
namespace StackLang
namespace Interpreter

open Output (Echoes)

theorem runNode_keeps_output {P : Output → Prop} (trace : ∀ o line, P o → P (o.note (.trace line)))
    {n : Node} {s : Interpreter} (ran : P (run [.rest [n]] s).2.machine.bench.out) :
    P (s.runNode n).2.machine.bench.out := by
  unfold runNode
  split
  · rename_i f t stopped
    rw [stopped] at ran
    unfold log
    split
    · exact trace _ _ ran
    · exact ran
  · exact ran

theorem runNode_echoes {o p : Output} (sound : o.Sound) (willing : p.Willing) (n : Node)
    {s t : Interpreter} (above : Above (Echoes o p none) [] s t) :
    (∃ stop e, (s.runNode n).1 = some stop ∧ stop.IsWriting ∧ Echoes o p (some e)
      (s.runNode n).2.machine.bench.out (t.runNode n).2.machine.bench.out) ∨
    (t.runNode n).1 = (s.runNode n).1 ∧
      Above (Echoes o p none) [] (s.runNode n).2 (t.runNode n).2 := by
  refine (run_echoes sound willing [.rest [n]] above).imp ?_ ?_
  · rintro ⟨stop, e, stopped, writing, echoes⟩
    refine ⟨stop, e, (runNode_stop s n).trans stopped, writing, ?_⟩
    refine runNode_keeps_output (P := fun here => Echoes o p (some e) here _)
      (fun _ line echoes => (echoes.trace line).1) ?_
    exact runNode_keeps_output (P := Echoes o p (some e) _)
      (fun _ line echoes => (echoes.trace line).2) echoes
  · exact runNode_alike fun line _ _ above => above.log Echoes.trace line line

theorem dataOf_runTree (s : Interpreter) (n : Node) (i : Nat) :
    (s.runTree n).2.machine.bench.out.console.dataOf i =
      (s.runNode n).2.machine.bench.out.console.dataOf i :=
  Console.dataOf_eq (Output.flushEach_writes _ _) i

/-- Let a program run with an output to distinct devices that own up to what they do not take, and
again with one device that takes everything. The first ones hold parts of what the second holds, a
later one never more than an earlier one. Unless the run stopped over a write, they hold all of it,
and the stack, the words, the loops and the fault are the same. -/
theorem write_failures_cut_short (s : Interpreter) (n : Node) (ideal : Output) (j : Nat)
    (sound : s.machine.bench.out.Sound) (only : ideal.leaves = [j])
    (takesAll : (ideal.console.device j).TakesAll)
    (keeps : (ideal.console.device j).kind ≠ .discard) :
    let t := { s with machine.bench.out := ideal }
    let before := s.machine.bench.out
    let out := (s.runTree n).2.machine.bench.out
    ∃ (full : Text) (part : Nat → Text),
      (t.runTree n).2.machine.bench.out.console.dataOf j = ideal.console.dataOf j ++ full ∧
      (∀ i ∈ before.leaves, (before.console.device i).kind ≠ .discard →
        out.console.dataOf i = before.console.dataOf i ++ part i) ∧
      (∀ i ∈ before.leaves, part i <+: full) ∧
      (before.leaves.Pairwise fun i k => part k <+: part i) ∧
      ((∀ stop, (s.runNode n).1 = some stop → ¬ stop.IsWriting) →
        (∀ i ∈ before.leaves, part i = full) ∧
        (t.runTree n).2.machine.bench.stack = (s.runTree n).2.machine.bench.stack ∧
        (t.runTree n).2.words = (s.runTree n).2.words ∧
        (t.runTree n).2.machine.loops = (s.runTree n).2.machine.loops ∧
        ∃ fault : Option Failure,
          (s.runTree n).1 = fault.or ((s.runNode n).2.flush.1.map fun e => .cause e.cause) ∧
          (t.runTree n).1 = fault.or ((t.runNode n).2.flush.1.map fun e => .cause e.cause)) := by
  intro t before out
  have start : Above (Echoes before ideal none) [] s t :=
    ⟨⟨(List.append_nil _).symm, .refl before ideal⟩, rfl, rfl, rfl, rfl⟩
  -- there was an error only if the run stopped over it
  obtain ⟨error, ⟨data, part, part', first, second⟩, alike⟩ : ∃ error,
      Echoes before ideal error (s.runNode n).2.machine.bench.out (t.runNode n).2.machine.bench.out ∧
      ((∀ stop, (s.runNode n).1 = some stop → ¬ stop.IsWriting) → error = none ∧
        (t.runNode n).1 = (s.runNode n).1 ∧
        Above (Echoes before ideal none) [] (s.runNode n).2 (t.runNode n).2) := by
    rcases runNode_echoes sound (Output.willing_of_only only takesAll) n start with
      ⟨stop, e, stopped, writing, echoes⟩ | ⟨stops, above⟩
    · exact ⟨some e, echoes, fun fine => absurd writing (fine stop stopped)⟩
    · exact ⟨none, above.bench.out, fun _ => ⟨rfl, stops, above⟩⟩
  refine ⟨data, part, ?_, ?_, fun i leaf => first.delivered.cut leaf, first.delivered.order, ?_⟩
  · rw [dataOf_runTree]
    exact second.dataOf_only only keeps
  · intro i leaf kept
    exact (dataOf_runTree s n i).trans (first.delivered.took leaf kept)
  · intro fine
    obtain ⟨none, stops, above⟩ := alike fine
    refine ⟨fun i leaf => first.delivered.whole none leaf, ?_, above.words, above.loops, ?_⟩
    · exact above.bench.stack.trans (List.append_nil _)
    · refine ⟨_, runTree_fst s n, ?_⟩
      rw [runTree_fst, stops]

/-- A word to be written to two devices, of which the second one answers by the script. -/
def teed (script : List Reply) : Interpreter :=
  { machine.bench := { stack := [.number 2, .number 0x69, .number 0x68]
                       out := { leaves := [0, 1], console := { devices := [{}, { script }] } } } }

/-- A refused letter stops the run behind the one that takes everything; without it there is no
difference. -/
theorem write_failures_cut_short_teed :
    let lost := utf8 "disk full"
    let puts : Node := .op (.op .puts)
    let ideal : Output := { leaves := [0], console := { devices := [{}] } }
    let full (script : List Reply) := ({ teed script with machine.bench.out := ideal }.runTree
      puts).2.machine.bench.out.console.dataOf 0
    let held (script : List Reply) (i : Nat) :=
      ((teed script).runTree puts).2.machine.bench.out.console.dataOf i
    ((teed [.refuse lost]).runNode puts).1 = some (.fault ⟨Op.puts.name, .writing (.device lost)⟩) ∧
    (held [.refuse lost] 0 <+: full [.refuse lost] ∧
      held [.refuse lost] 1 <+: held [.refuse lost] 0) ∧
    ((teed []).runNode puts).1 = none ∧ held [] 0 = full [] ∧ held [] 1 = full [] := by
  intro lost puts ideal full held
  have sound (script : List Reply) (honest : ∀ r ∈ script, r.Honest) :
      (teed script).machine.bench.out.Sound := by
    refine ⟨(by decide : [0, 1].Nodup), fun i leaf r mem => ?_⟩
    match i, leaf with
    | 0, _ => cases mem
    | 1, _ => exact honest r mem
  have honest : ∀ r ∈ [Reply.refuse lost], r.Honest := by
    intro r mem
    cases List.mem_singleton.1 mem
    exact fun _ _ => nofun
  have stops : ((teed [.refuse lost]).runNode puts).1 =
      some (.fault ⟨Op.puts.name, .writing (.device lost)⟩) := by
    rw [runNode_stop]
    exact congrArg Prod.fst (run_of_ended rfl)
  have ends : ((teed []).runNode puts).1 = none := by
    rw [runNode_stop]
    iterate 2 refine (congrArg Prod.fst (run_of_more rfl)).trans ?_
    exact congrArg Prod.fst (run_of_ended rfl)
  have fine (stop : Stop) (stopped : ((teed []).runNode puts).1 = some stop) :
      ¬ stop.IsWriting := by
    rw [ends] at stopped
    cases stopped
  refine ⟨stops, ?_, ends, ?_⟩
  · obtain ⟨text, part, whole, parts, cut, order, -⟩ :=
      write_failures_cut_short (teed [.refuse lost]) puts ideal 0 (sound _ honest) rfl nofun nofun
    have first : held [.refuse lost] 0 = part 0 := parts 0 (by decide) nofun
    have second : held [.refuse lost] 1 = part 1 := parts 1 (by decide) nofun
    have below : part 1 <+: part 0 := List.rel_of_pairwise_cons order (by decide)
    have whole : full [.refuse lost] = text := whole
    rw [first, second, whole]
    exact ⟨cut 0 (by decide), below⟩
  · obtain ⟨text, part, whole, parts, -, -, same⟩ :=
      write_failures_cut_short (teed []) puts ideal 0 (sound [] nofun) rfl nofun nofun
    have all := (same fine).1
    have held_eq (i : Nat) (leaf : i ∈ [0, 1]) (keeps) : held [] i = full [] :=
      (parts i leaf keeps).trans ((all i leaf).trans whole.symm)
    exact ⟨held_eq 0 (by decide) nofun, held_eq 1 (by decide) nofun⟩

end Interpreter
end StackLang
