import StackLang.Proofs.Interpreter.Straight
import StackLang.Proofs.Session.Stages

/-! What straight lines print. The text of such a line is read back as its nodes, so a session that
runs it is left as it was but for what the line has put on the stack and into the output. A string
literal followed by its printing puts the text of the literal there. -/
namespace StackLang
namespace Interpreter
open Output (Copied)

/-- A session is as it was, but that the data has been written, in chunks of some kind. -/
structure Printed (s : Interpreter) (data : Text) (t : Interpreter) : Prop where
  state : t = { s with machine.bench.out := t.machine.bench.out }
  copied : ∃ chunks : List Text, chunks.flatten = data ∧
    Copied s.machine.bench.out chunks t.machine.bench.out
  once {i : Nat} (listed : s.machine.bench.out.leaves.count i = 1)
    (keeps : (s.console.device i).kind ≠ .discard) :
    t.console.dataOf i = s.console.dataOf i ++ data

theorem Wrote.printed {s t : Interpreter} {chunks : List Text}
    (wrote : Wrote s s.machine.bench.stack chunks t) : Printed s chunks.flatten t where
  state := wrote.state
  copied := ⟨chunks, rfl, wrote.copied⟩
  once := wrote.copied.once

theorem Wrote.flush {s t : Interpreter} {stack : List Entity} {chunks : List Text}
    (wrote : Wrote s stack chunks t) : Wrote s stack chunks t.flush.2 := by
  refine ⟨?_, wrote.copied.flush⟩
  rw [wrote.state]
  rfl

theorem Wrote.log {s t : Interpreter} {stack : List Entity} {chunks : List Text}
    (wrote : Wrote s stack chunks t) (line : Text) : Wrote s stack chunks (t.log line) := by
  unfold Interpreter.log
  split
  · refine ⟨?_, wrote.copied.trace _⟩
    rw [wrote.state]
  · exact wrote

theorem exec_source {ns : List Node} {src : Text} (printable : ∀ n ∈ ns, n.Printable)
    (source : (Node.block ns).source? = some src) (s : Interpreter) :
    s.exec src = s.runTree (.block ns) := by
  obtain ⟨text, ts, same, lexed, parsed⟩ := parse_source printable
  cases source.symm.trans same
  exact exec_parsed lexed parsed s

theorem runTree_ended {ns : List Node} {s t : Interpreter} (ran : run [.rest ns] s = (none, t)) :
    s.runTree (.block ns) = (s.flushFailure.map fun e => .cause e.cause, t.flush.2) := by
  have ended : s.runNode (.block ns) = (none, t) := by
    rw [runNode, run_block, ran]
  have started := runTree_started s (.block ns)
  have fine : s.ownFailure (.block ns) = none := started.own.2 (congrArg Prod.fst ended)
  refine Prod.ext (started.result.trans ?_) ?_
  · rw [fine, Option.none_or]
  · rw [runTree, ended]

/-- A run that stops over a fault fails with it, whatever the last flush says. -/
theorem runTree_faulted {ns : List Node} {s t : Interpreter} {f : Fault}
    (ran : run [.rest ns] s = (some (.fault f), t)) :
    ∃ line, s.runTree (.block ns) = (some (.ofFault f), (t.log line).flush.2) := by
  have stopped : s.runNode (.block ns) = (some (.fault f),
      t.log (utf8 "halt error: " ++ (Failure.ofFault f).message)) := by
    rw [runNode, run_block, ran]
  refine ⟨utf8 "halt error: " ++ (Failure.ofFault f).message, Prod.ext ?_ ?_⟩
  · rw [runTree_fst, stopped, isolate_fault (Failure.firstAbort?_ofFault f), Option.some_or]
  · rw [runTree, stopped]

/-- The source runs to its end, where only the last flush can fail, and it prints the data. -/
def Prints (s : Interpreter) (src data : Text) : Prop :=
  ∃ t, s.exec src = (s.flushFailure.map fun e => .cause e.cause, t) ∧ Printed s data t

/-- The source of a straight line that leaves the stack as it was prints what the line writes. -/
theorem prints_straight {ns : List Node} {src : Text} {s : Interpreter} {chunks : List Text}
    (printable : ∀ n ∈ ns, n.Printable) (source : (Node.block ns).source? = some src)
    (straight : Straight ns s.machine.bench.stack s.machine.bench.stack chunks)
    (all : s.machine.bench.out.TakesAll) : Prints s src chunks.flatten := by
  obtain ⟨t, ran, wrote⟩ := straight.run all
  refine ⟨t.flush.2, ?_, wrote.flush.printed⟩
  rw [exec_source printable source, runTree_ended ran]

theorem exec_stopped {ns ms : List Node} {n : Node} {src : Text} {s : Interpreter}
    {last rest : List Entity} {chunks : List Text} {act : Bench.Action Unit} {f : Fault}
    (printable : ∀ m ∈ ns ++ n :: ms, m.Printable)
    (source : (Node.block (ns ++ n :: ms)).source? = some src)
    (straight : Straight ns s.machine.bench.stack last chunks)
    (all : s.machine.bench.out.TakesAll) (works : Works n act)
    (stopped : ∀ out, act ⟨last, out⟩ = .error (.fault f) ⟨rest, out⟩) :
    ∃ t, s.exec src = (some (.ofFault f), t) ∧ Wrote s rest chunks t := by
  obtain ⟨t, ran, wrote⟩ := straight.run_stops all works stopped ms
  obtain ⟨line, ended⟩ := runTree_faulted ran
  refine ⟨(t.log line).flush.2, ?_, (wrote.log line).flush⟩
  rw [exec_source printable source, ended]

theorem spelled_literal {t : Text} (size : t.glyphs.length < 2 ^ 31) (stack : List Entity) :
    ∃ rest, (∀ out, literal t ⟨stack, out⟩ = .ok () ⟨rest, out⟩) ∧
      Bench.Spelled rest (t.glyphs.map Glyph.shown) stack := by
  let codes := t.glyphs.map fun g => Entity.number (.ofNat g.shown.toNat)
  have spelling : codes.reverse = Bench.spelling (t.glyphs.map Glyph.shown) := by
    rw [Bench.spelling, List.map_map]
    rfl
  refine ⟨.number (.ofNat codes.length) :: codes.reverseAux stack, fun _ => rfl,
    .ofNat codes.length, ?_, ?_⟩
  · rw [List.reverseAux_eq, spelling]
  · rw [List.length_map, List.length_map]
    exact Int32.toInt_ofNat_of_lt size

theorem straight_literal {t : Text} (size : t.glyphs.length < 2 ^ 31) (stack : List Entity) :
    Straight [.string t, .op (.op .puts)] stack stack
      (t.glyphs.map fun g => encode g.shown) := by
  obtain ⟨rest, pushed, spelled⟩ := spelled_literal size stack
  have printed := Bench.yields_puts spelled
  have line := Straight.cons (n := .string t) rfl (.silent pushed)
    (.cons (works_op .puts) printed (.nil stack))
  rw [List.nil_append, List.append_nil, List.map_map] at line
  exact line

theorem printable_literal {t : Text} (unquoted : 0x22 ∉ t) :
    (∀ n ∈ [Node.string t, .op (.op .puts)], n.Printable) ∧
      (Node.block [.string t, .op (.op .puts)]).source? =
        some (utf8 "\"" ++ t ++ utf8 "\" PUTS") := by
  constructor
  · exact List.forall_mem_cons.2 ⟨.string unquoted, List.forall_mem_singleton.2 (.op rfl)⟩
  · have closing : utf8 "\" PUTS" = utf8 "\"" ++ Text.space :: Op.puts.name := by decide
    simp [Node.source?, Node.spaced?, closing, Kind.title]

/-- Printed at once, a string literal comes out as it stands, but that each byte which is no part of
a character is replaced; and the session is left as it was. Its source does the same. -/
theorem literals_print_themselves (t : Text) (s : Interpreter) (size : t.glyphs.length < 2 ^ 31)
    (all : s.machine.bench.out.TakesAll) :
    ∃ data, t.Mends data ∧ (∀ cs : List Char, t = cs.flatMap String.utf8EncodeChar → data = t) ∧
      (∃ u, run [.rest [.string t, .op (.op .puts)]] s = (none, u) ∧ Printed s data u) ∧
      (0x22 ∉ t → Prints s (utf8 "\"" ++ t ++ utf8 "\" PUTS") data) := by
  have straight := straight_literal size s.machine.bench.stack
  have data : (t.glyphs.map fun g => encode g.shown).flatten = t.shown := rfl
  refine ⟨t.shown, t.mends_shown, ?_, ?_, ?_⟩
  · rintro cs rfl
    rw [← funext encode_eq]
    exact Text.shown_chars cs
  · obtain ⟨u, ran, wrote⟩ := straight.run all
    exact ⟨u, ran, data ▸ wrote.printed⟩
  · intro unquoted
    obtain ⟨printable, source⟩ := printable_literal unquoted
    exact data ▸ prints_straight printable source straight all

/-- A letter and an accented one go to two devices of different kinds. -/
theorem literals_print_themselves_teed :
    let s : Interpreter := { machine.bench := { stack := [.number 7], out := {
      leaves := [0, 1], console := { devices := [{}, { kind := .characters }] } } } }
    ∃ u, s.exec (utf8 "\"hé\" PUTS") = (none, u) ∧ u.machine.bench.stack = [.number 7] ∧
      u.console.dataOf 0 = utf8 "hé" ∧ u.console.dataOf 1 = utf8 "hé" := by
  intro s
  have all : s.machine.bench.out.TakesAll := by
    intro i leaf keeps r mem
    match i, leaf with
    | 0, _ | 1, _ => cases mem
  obtain ⟨data, -, whole, -, source⟩ :=
    literals_print_themselves (utf8 "hé") s (by decide +kernel) all
  obtain ⟨u, ran, printed⟩ := source (by decide)
  have same : data = utf8 "hé" := whole ['h', 'é'] (by decide)
  have first := printed.once (i := 0) (by decide) (by decide)
  have second := printed.once (i := 1) (by decide) (by decide)
  rw [same] at first second
  refine ⟨u, ran, ?_, first, second⟩
  rw [printed.state]

end Interpreter
end StackLang
