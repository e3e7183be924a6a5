import Mathlib.Order.WellFounded
import StackLang.Proofs.Interpreter.Control

/-! Every run ends, and within a number of steps that can be given beforehand as fuel. -/
namespace StackLang
namespace Interpreter

/-- A run of at most `fuel` steps; without a result the fuel has been used up. -/
def runWithin : Nat → List Frame → Interpreter → Option (Option Stop × Interpreter)
  | 0, _, _ => none
  | fuel + 1, frames, s =>
    match step frames s with
    | .ended stop t => some (stop, t)
    | .more later t => runWithin fuel later t

theorem runWithin_eq (frames : List Frame) (s : Interpreter) :
    ∃ steps, ∀ fuel,
      runWithin fuel frames s = if fuel < steps then none else some (run frames s) := by
  fun_induction run frames s with
  | case1 frames s stop t stepped =>
    refine ⟨1, fun fuel => ?_⟩
    cases fuel with
    | zero => rfl
    | succ fuel => simp [runWithin, stepped]
  | case2 frames s later t stepped ih =>
    obtain ⟨steps, exact⟩ := ih
    refine ⟨steps + 1, fun fuel => ?_⟩
    cases fuel with
    | zero => simp [runWithin]
    | succ fuel => simp [runWithin, stepped, exact fuel]

theorem run_of_runWithin {fuel : Nat} {frames : List Frame} {s : Interpreter}
    {result : Option Stop × Interpreter} (ended : runWithin fuel frames s = some result) :
    run frames s = result := by
  obtain ⟨steps, within⟩ := runWithin_eq frames s
  rw [within] at ended
  split at ended
  · cases ended
  · exact Option.some.inj ended

theorem no_endless_steps (frames : List Frame) (s : Interpreter) :
    ¬ ∃ states : Nat → List Frame × Interpreter,
      states 0 = (frames, s) ∧ ∀ i, Follows (states (i + 1)) (states i) := by
  rw [← not_acc_iff_exists_descending_chain, not_not]
  exact acc_follows frames s

/-- A loop that waits for its next round is counted up by one in the integers, not beyond its
limit. -/
theorem stepLoop_exact {t : Interpreter} {body : List Node} (fits : t.Fits (.again body)) :
    ∃ l m outer, t.machine.loops = l :: outer ∧ t.machine.stepLoop.loops = m :: outer ∧
      m.limit = l.limit ∧ m.index.toInt = l.index.toInt + 1 ∧ m.index ≤ m.limit := by
  obtain ⟨l, outer, loops, more⟩ := fits
  have next := index_next more
  have below := Int32.lt_iff_toInt_lt.1 more
  have stepped : t.machine.stepLoop.loops = { l with index := l.index + 1 } :: outer := by
    simp [Machine.stepLoop, loops]
  refine ⟨l, _, outer, loops, stepped, rfl, next, ?_⟩
  rw [Int32.le_iff_toInt_le, next]
  exact below

/-- Every run ends: a number of steps is enough fuel for it and less is not, it has no endless
sequence of steps, and no index of its loops wraps around. -/
theorem every_run_ends (n : Node) (s : Interpreter) :
    (∃ steps, ∀ fuel, runWithin fuel [.rest [n]] s =
      if fuel < steps then none else some ((s.runNode n).1, (run [.rest [n]] s).2)) ∧
    (¬ ∃ states : Nat → List Frame × Interpreter,
      states 0 = ([.rest [n]], s) ∧ ∀ i, Follows (states (i + 1)) (states i)) ∧
    (∀ body frames t, Reaches [.rest [n]] s (.again body :: frames) t →
      ∃ l m outer, t.machine.loops = l :: outer ∧ t.machine.stepLoop.loops = m :: outer ∧
        m.limit = l.limit ∧ m.index.toInt = l.index.toInt + 1 ∧ m.index ≤ m.limit) := by
  refine ⟨?_, no_endless_steps _ s, ?_⟩
  · rw [runNode_stop]
    exact runWithin_eq [.rest [n]] s
  · intro body frames t reached
    exact stepLoop_exact ((held_start n s).reached reached).1

end Interpreter
end StackLang
