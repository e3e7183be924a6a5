import StackLang.Proofs.Interpreter.Control
import StackLang.Proofs.Session.Steps

/-! A session between its steps is in no loop and in no call, however its runs ended. -/
namespace StackLang
namespace Interpreter

theorem runNode_sameControl (s : Interpreter) (n : Node) : SameControl s (s.runNode n).2 := by
  have ran := run_sameControl n s
  unfold runNode
  split
  · rename_i f t ended
    rw [ended] at ran
    exact ran.trans (.log t _)
  · exact ran

structure AtRest (s : Interpreter) : Prop where
  loops : s.machine.loops = []
  depth : s.depth = 0

namespace AtRest

variable {s t : Interpreter}

theorem same (rest : s.AtRest) (h : SameContents s t) : t.AtRest :=
  ⟨h.loops.trans rest.loops, h.depth.trans rest.depth⟩

theorem runTree (rest : s.AtRest) (n : Node) : (s.runTree n).2.AtRest := by
  have ran := runNode_sameControl s n
  have ended : (s.runNode n).2.AtRest := ⟨ran.loops.trans rest.loops, ran.depth.trans rest.depth⟩
  exact ended.same (.flush _)

theorem act (rest : s.AtRest) (a : Act) : (s.act a).AtRest := by
  cases a with
  | run n => exact rest.runTree n
  | exec src =>
    simp only [Interpreter.act, exec]
    split
    · exact rest.same (.log s _)
    · exact rest.runTree _
  | push es => exact ⟨rest.loops, rest.depth⟩
  | pop =>
    simp only [Interpreter.act, popTop]
    split
    · exact rest
    · exact ⟨rest.loops, rest.depth⟩

end AtRest

/-- However a node ends, and wherever it is broken off, its loops and its calls are taken back. If
they are within bounds at the start, they are so at every state on the way. So between the steps of
a session there is neither a loop nor a call. -/
theorem control_is_restored :
    (∀ (n : Node) (s : Interpreter),
      SameControl s (s.runNode n).2 ∧
      (∀ frames t u, Reaches [.rest [n]] s frames t → SameControl t u →
        SameControl s (frames.foldl abandon u)) ∧
      (InBounds s.callLimit s → ∀ t, Passes [.rest [n]] s t → InBounds s.callLimit t)) ∧
    ∀ (out : Output) (settings : List Setting) (acts : List Act),
      ((new out settings).after acts).AtRest := by
  constructor
  · intro n s
    have held := held_start n s
    refine ⟨runNode_sameControl s n, ?_, fun bounds t passed => bounds.passes held passed⟩
    intro frames t u reached same
    exact ((held.reached reached).same same).unwound
  · intro out settings acts
    have fresh : (new out settings).AtRest := AtRest.same ⟨rfl, rfl⟩ (new_empty out settings)
    exact after_keeps (fun a _ s rest => rest.act a) fresh

def amidLoop : Interpreter :=
  { machine := { bench := { stack := [.number 0, .number 2] }, loops := [⟨3, 1⟩] }
    words := [(utf8 "w", .word [.hole])], depth := 2 }

/-- The hole breaks an inner loop off, and the outer one stands as before. -/
theorem control_is_restored_hole :
    InBounds amidLoop.callLimit amidLoop ∧
    (amidLoop.runNode (.loop [.call (utf8 "w")])).1 = some .broken ∧
    SameControl amidLoop (amidLoop.runNode (.loop [.call (utf8 "w")])).2 ∧
    ∀ t, Passes [.rest [.loop [.call (utf8 "w")]]] amidLoop t →
      InBounds amidLoop.callLimit t := by
  have bounds : InBounds amidLoop.callLimit amidLoop := ⟨by decide, by decide⟩
  have broken : (amidLoop.runNode (.loop [.call (utf8 "w")])).1 = some .broken := by
    rw [runNode_stop]
    refine (congrArg Prod.fst (run_of_more rfl)).trans ?_
    refine (congrArg Prod.fst (run_of_more rfl)).trans ?_
    exact congrArg Prod.fst (run_of_ended rfl)
  obtain ⟨restored, -, within⟩ := control_is_restored.1 (.loop [.call (utf8 "w")]) amidLoop
  exact ⟨bounds, broken, restored, within bounds⟩

end Interpreter
end StackLang
