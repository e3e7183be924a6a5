import StackLang.Proofs.Interpreter.Action

/-! Runs in sequence. Frames run one after the other, those behind only if those before them end
well; so a body may be cut in two. -/
namespace StackLang
namespace Interpreter

/-- Goes on with more frames where a run has ended well; a stop abandons them. -/
def goOn (next : List Frame) : Option Stop × Interpreter → Option Stop × Interpreter
  | (none, t) => run next t
  | (some stop, t) => (some stop, next.foldl abandon t)

theorem run_append (frames next : List Frame) (s : Interpreter) :
    run (frames ++ next) s = goOn next (run frames s) := by
  fun_induction run frames s with
  | case1 frames s stop t stepped =>
    rcases step_ended stepped with ⟨rfl, rfl, rfl⟩ | ⟨frame, waiting, why, u, rfl, stopped, rfl, rfl⟩
    · rfl
    · have ended : step (frame :: waiting ++ next) s =
          .ended (some why) ((waiting ++ next).foldl abandon u) := by
        simp only [List.cons_append, step, stopped]
      rw [run_of_ended ended, List.foldl_append]
      rfl
  | case2 frames s later t stepped ih =>
    obtain ⟨frame, waiting, inner, rfl, resumed, rfl⟩ := step_more stepped
    have more : step (frame :: waiting ++ next) s = .more (inner ++ waiting ++ next) t := by
      simp only [List.cons_append, step, resumed, List.append_assoc]
    rw [run_of_more more, ih]

theorem run_rest_nil (s : Interpreter) : run [.rest []] s = (none, s) :=
  (run_of_more rfl).trans (run_of_ended rfl)

theorem goOn_rest_nil (r : Option Stop × Interpreter) : goOn [.rest []] r = r := by
  obtain ⟨stop, t⟩ := r
  cases stop with
  | none => exact run_rest_nil t
  | some stop => rfl

theorem resume_rest (n : Node) (ns : List Node) (s : Interpreter) :
    resume (.rest (n :: ns)) s = match visit n s with
      | .ok inner t => .ok (inner ++ [.rest ns]) t
      | .error stop t => .error stop t := by
  change EStateM.bind _ _ s = _
  unfold EStateM.bind
  cases visit n s <;> rfl

theorem run_rest_append (ns ms : List Node) (s : Interpreter) :
    run [.rest (ns ++ ms)] s = goOn [.rest ms] (run [.rest ns] s) := by
  rw [← run_append]
  induction ns generalizing s with
  | nil => exact (run_of_more rfl).symm
  | cons n ns ih =>
    cases visited : visit n s with
    | ok inner t =>
      have whole : step [.rest (n :: ns ++ ms)] s = .more (inner ++ [.rest (ns ++ ms)]) t := by
        simp [step, resume_rest, visited]
      have halves : step [.rest (n :: ns), .rest ms] s =
          .more (inner ++ [.rest ns, .rest ms]) t := by
        simp [step, resume_rest, visited]
      refine (run_of_more whole).trans (Eq.trans ?_ (run_of_more halves).symm)
      rw [run_append, run_append]
      -- frames that run no word and no loop are abandoned without a trace
      obtain ⟨stop, u⟩ := run inner t
      cases stop with
      | none => exact ih u
      | some stop => rfl
    | error stop t =>
      have whole : step [.rest (n :: ns ++ ms)] s = .ended (some stop) t := by
        simp [step, resume_rest, visited]
      have halves : step [.rest (n :: ns), .rest ms] s = .ended (some stop) t := by
        simp [step, resume_rest, visited, abandon]
      exact (run_of_ended whole).trans (run_of_ended halves).symm

theorem run_block (body : List Node) (s : Interpreter) :
    run [.rest [.block body]] s = run [.rest body] s := by
  have opened : step [.rest [.block body]] s = .more ([.rest body] ++ [.rest []]) s := rfl
  rw [run_of_more opened, run_append, goOn_rest_nil]

theorem Reaches.behind {first frames : List Frame} {s t : Interpreter}
    (reached : Reaches first s frames t) (next : List Frame) :
    Reaches (first ++ next) s (frames ++ next) t := by
  induction reached with
  | start => exact .start
  | step before stepped ih =>
    obtain ⟨frame, waiting, inner, rfl, resumed, rfl⟩ := step_more stepped
    refine .step ih ?_
    simp only [List.cons_append, Interpreter.step, resumed, List.append_assoc]

theorem Reaches.trans {first frames last : List Frame} {s t u : Interpreter}
    (reached : Reaches first s frames t) (later : Reaches frames t last u) :
    Reaches first s last u := by
  induction later with
  | start => exact reached
  | step before stepped ih => exact .step ih stepped

theorem reaches_nil_iff {frames : List Frame} {s t : Interpreter} :
    Reaches frames s [] t ↔ run frames s = (none, t) := by
  constructor
  · exact fun reached => reached.run_eq.trans (run_of_ended rfl)
  · intro ended
    obtain ⟨last, u, reached, stepped⟩ := run_reaches frames s
    rw [ended] at stepped
    rcases step_ended stepped with ⟨rfl, -, rfl⟩ | ⟨_, _, _, _, -, -, stopped, -⟩
    · exact reached
    · cases stopped

end Interpreter
end StackLang
