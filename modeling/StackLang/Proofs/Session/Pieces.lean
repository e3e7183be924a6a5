import StackLang.Proofs.Interpreter.Below
import StackLang.Proofs.Interpreter.Sequence
import StackLang.Proofs.Output.Flush
import StackLang.Proofs.Session.Typing
import StackLang.Proofs.Token.Seam
import StackLang.Proofs.Tree.Acceptance

/-! A program may be fed in pieces: two sources with a newline between them are read as one after
the other, and run as one after the other, up to the flush in between. -/
namespace StackLang

theorem beforeEnd_of_reads {c : Cursor} {ts : List Token} (reads : c.Reads ts) :
    beforeEnd ts = ts.dropLast ∧ ts ≠ [] := by
  induction reads with
  | ended found eof => simp [beforeEnd, eof]
  | more found token rest ih =>
    obtain ⟨before, some⟩ := ih
    refine ⟨?_, by simp⟩
    rw [List.dropLast_cons_of_ne_nil some, ← before]
    exact List.takeWhile_cons_of_pos (by simpa using token)

theorem beforeEnd_lex {src : Text} {ts : List Token} (lexed : lex src = .ok ts) :
    beforeEnd ts = ts.dropLast :=
  (beforeEnd_of_reads (Cursor.lex_eq_ok.1 lexed)).1

theorem parse_append {ts us : List Token} {ns ms : List Node} (first : parse ts = .ok ns)
    (second : parse us = .ok ms) : parse (beforeEnd ts ++ us) = .ok (ns ++ ms) := by
  obtain ⟨d, tokens, rfl⟩ := parse_eq_ok.1 first
  obtain ⟨e, tokens', rfl⟩ := parse_eq_ok.1 second
  refine parse_eq_ok.2 ⟨d.append e, ?_, by simp⟩
  have token : ∀ t ∈ beforeEnd ts, decide (t.kind ≠ .eof) = true :=
    List.all_eq_true.1 List.all_takeWhile
  rw [Derivation.tokens_append, tokens, tokens']
  exact (List.takeWhile_append_of_pos token).symm

theorem parse_down {us : List Token} {ms : List Node} (parsed : parse us = .ok ms) (lines : Nat) :
    parse (us.map (·.down lines)) = .ok ms := by
  refine Partial.takeAll_bare ?_ _ _ parsed
  rw [List.map_map]
  rfl

namespace Interpreter

/-- Runs the first source, and the second one if the first has not failed. -/
def execBoth (s : Interpreter) (a b : Text) : Option Failure × Interpreter :=
  match s.exec a with
  | (none, t) => t.exec b
  | (some f, t) => (some f, t)

/-- The same failure, stack, words and loops, and the same bytes on every device. -/
structure SameOutcome (x y : Option Failure × Interpreter) : Prop where
  failure : y.1 = x.1
  stack : y.2.machine.bench.stack = x.2.machine.bench.stack
  words : y.2.words = x.2.words
  loops : y.2.machine.loops = x.2.machine.loops
  data : ∀ i, y.2.machine.bench.out.console.dataOf i = x.2.machine.bench.out.console.dataOf i

theorem SameOutcome.refl (x : Option Failure × Interpreter) : SameOutcome x x :=
  ⟨rfl, rfl, rfl, rfl, fun _ => rfl⟩

theorem exec_parsed {src : Text} {ts : List Token} {ns : List Node} (lexed : lex src = .ok ts)
    (parsed : parse ts = .ok ns) (s : Interpreter) : s.exec src = s.runTree (.block ns) := by
  simp only [exec, read, lexed, parsed]

theorem runNode_append (ns ms : List Node) (s : Interpreter) :
    s.runNode (.block (ns ++ ms)) = match s.runNode (.block ns) with
      | (none, t) => t.runNode (.block ms)
      | (some stop, t) => (some stop, t) := by
  simp only [runNode, run_block, run_rest_append]
  obtain ⟨stop, t⟩ := run [.rest ns] s
  match stop with
  | none => rfl
  | some (.fault f) => rfl
  | some .broken => rfl

theorem runTree_stopped {n : Node} {s t : Interpreter} {stop : Stop}
    (stopped : s.runNode n = (some stop, t)) : ∃ f, (s.runTree n).1 = some f := by
  rw [runTree_fst, stopped]
  cases stop <;> exact ⟨_, rfl⟩

variable {leaves : List Nat}

theorem Above.flush {s t : Interpreter} (above : Above (Output.Watched leaves) [] s t) :
    s.flush.1 = none ∧ t.flush.1 = none ∧ Above (Output.Watched leaves) [] s t.flush.2 := by
  obtain ⟨⟨stack, listed, same, tally, alike, freely⟩, loops, words, depth, limit⟩ := above
  have here : ∀ i ∈ s.machine.bench.out.leaves,
      (s.machine.bench.out.console.device i).FlushesFreely := fun i mem => freely i (listed ▸ mem)
  have there : ∀ i ∈ t.machine.bench.out.leaves,
      (t.machine.bench.out.console.device i).FlushesFreely := by
    rw [same]
    exact fun i mem => Console.device_eq alike.devices i ▸ here i mem
  obtain ⟨error, devices⟩ := Output.flushEach_free there
  have flushed : Console.Alike Event.isWrite s.machine.bench.out.console
      (Output.flushEach t.machine.bench.out.console t.machine.bench.out.leaves).2 :=
    ⟨devices.trans alike.devices, (Output.flushEach_writes _ _).trans alike.events⟩
  refine ⟨(Output.flushEach_free here).1, error, ?_⟩
  exact ⟨⟨stack, listed, same, tally, flushed, freely⟩, loops, words, depth, limit⟩

theorem Above.outcome {s t : Interpreter} (above : Above (Output.Watched leaves) [] s t)
    (failure : Option Failure) : SameOutcome (failure, s.flush.2) (failure, t.flush.2) := by
  obtain ⟨-, -, flushed⟩ := above.flush
  have here := Output.flushEach_writes s.machine.bench.out.console s.machine.bench.out.leaves
  have there := flushed.bench.out.paired.console.alike.events
  refine ⟨rfl, ?_, above.words, above.loops, fun i => Console.dataOf_eq (there.trans here.symm) i⟩
  exact above.bench.stack.trans (List.append_nil _)

/-- Two bodies in one tree, or in two trees with a flush between them. -/
theorem runTree_append {s : Interpreter} (ns ms : List Node)
    (free : ∀ i ∈ s.machine.bench.out.leaves,
      (s.machine.bench.out.console.device i).FlushesFreely) :
    SameOutcome (s.runTree (.block (ns ++ ms)))
      (match s.runTree (.block ns) with
        | (none, t) => t.runTree (.block ms)
        | (some f, t) => (some f, t)) := by
  have start : Above (Output.Watched s.machine.bench.out.leaves) [] s s :=
    ⟨⟨(List.append_nil _).symm, rfl, rfl, rfl, .refl _ _, free⟩, rfl, rfl, rfl, rfl⟩
  have middle := (start.runNode (Output.steady_watched _) (.block ns)).2
  have joined := runNode_append ns ms s
  cases ran : s.runNode (.block ns) with
  | mk stop t =>
    rw [ran] at joined middle
    cases stop with
    | some stop =>
      have whole : s.runTree (.block (ns ++ ms)) = s.runTree (.block ns) := by
        simp only [runTree, joined, ran]
      obtain ⟨f, failed⟩ := runTree_stopped ran
      generalize s.runTree (.block ns) = first at whole failed ⊢
      obtain ⟨_, u⟩ := first
      cases failed
      rw [whole]
      exact .refl _
    | none =>
      obtain ⟨ended, -, flushed⟩ := middle.flush
      have first : s.runTree (.block ns) = (none, t.flush.2) := by
        simp only [runTree, ran, ended]
        rfl
      obtain ⟨stops, last⟩ := flushed.runNode (Output.steady_watched _) (.block ms)
      obtain ⟨here, there, -⟩ := last.flush
      rw [first]
      simp only [runTree, joined, stops, here, there]
      exact last.outcome _

end Interpreter

/-- A source that lexes and leaves no string open may be followed by a newline and another one. The
tokens are those of the two, the second ones further down, and so is a fault. If both parse, so do
they together, to the nodes of both; and to run them together, with devices that flush freely, is to
run one after the other. -/
theorem pieces_may_be_joined (a b : Text) (ts : List Token) (lexed : lex a = .ok ts)
    (closed : ¬ EndsInString [] a ts) :
    (lex (a ++ Text.newline :: b) = match lex b with
      | .ok us => .ok (ts.dropLast ++ us.map (·.down (1 + a.count Text.newline)))
      | .error e => .error (e.down (1 + a.count Text.newline))) ∧
    ∀ us ns ms, lex b = .ok us → parse ts = .ok ns → parse us = .ok ms →
      (∃ vs, lex (a ++ Text.newline :: b) = .ok vs ∧ parse vs = .ok (ns ++ ms)) ∧
      ∀ s : Interpreter, (∀ i ∈ s.machine.bench.out.leaves,
        (s.machine.bench.out.console.device i).FlushesFreely) →
        Interpreter.SameOutcome (s.exec (a ++ Text.newline :: b)) (s.execBoth a b) := by
  have joined := lex_newline lexed closed b
  refine ⟨joined, fun us ns ms lexed' parsed parsed' => ?_⟩
  rw [lexed'] at joined
  have together := parse_append parsed (parse_down parsed' (1 + a.count Text.newline))
  rw [beforeEnd_lex lexed] at together
  refine ⟨⟨_, joined, together⟩, fun s free => ?_⟩
  rw [Interpreter.exec_parsed joined together]
  have apart := Interpreter.runTree_append ns ms free
  rw [← Interpreter.exec_parsed lexed parsed] at apart
  simp only [← Interpreter.exec_parsed lexed' parsed'] at apart
  exact apart

/-- A string is closed and written, and the next line leaves a number; the device is flushed. -/
theorem pieces_may_be_joined_puts :
    let a := utf8 "\"hi\" PUTS"
    let b := utf8 "1"
    let s : Interpreter := { machine.bench.out :=
      { leaves := [0], console := { devices := [{ kind := .flushing }] } } }
    lex (a ++ Text.newline :: b) = .ok [{ kind := .string, pos := ⟨1, 1⟩, text := utf8 "hi" },
      { kind := .op .puts, pos := ⟨1, 6⟩ }, { kind := .number, pos := ⟨2, 1⟩, num := 1 },
      { kind := .eof, pos := ⟨2, 2⟩ }] ∧
    Interpreter.SameOutcome (s.exec (a ++ Text.newline :: b)) (s.execBoth a b) := by
  intro a b s
  have lexed : lex a = .ok [{ kind := .string, pos := ⟨1, 1⟩, text := utf8 "hi" },
      { kind := .op .puts, pos := ⟨1, 6⟩ }, { kind := .eof, pos := ⟨1, 10⟩ }] := by decide +kernel
  have lexed' : lex b = .ok [{ kind := .number, pos := ⟨1, 1⟩, num := 1 },
      { kind := .eof, pos := ⟨1, 2⟩ }] := by decide +kernel
  have closed : ¬ EndsInString [] a [{ kind := .string, pos := ⟨1, 1⟩, text := utf8 "hi" },
      { kind := .op .puts, pos := ⟨1, 6⟩ }, { kind := .eof, pos := ⟨1, 10⟩ }] := by
    rintro ⟨u, text, same, unquoted, mem⟩
    have said : text = utf8 "hi" := by
      simp only [List.mem_cons, List.not_mem_nil, Token.mk.injEq, reduceCtorEq, false_and, or_false,
        true_and, and_true] at mem
      exact mem.2
    -- the text of the only string would be the end of the source
    have last : a.getLast? = some 0x69 := by
      rw [same, said, List.getLast?_append]
      rfl
    cases last
  obtain ⟨joined, together⟩ := pieces_may_be_joined a b _ lexed closed
  rw [lexed'] at joined
  have free : ∀ i ∈ [0], (s.machine.bench.out.console.device i).FlushesFreely := by
    intro i leaf
    cases List.mem_singleton.1 leaf
    exact ⟨rfl, rfl⟩
  exact ⟨joined, (together _ _ _ lexed' rfl rfl).2 s free⟩

end StackLang
