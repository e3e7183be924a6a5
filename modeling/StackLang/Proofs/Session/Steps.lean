import StackLang.Session

/-! Sessions as sequences of steps, from a fresh interpreter on. -/
namespace StackLang

structure SameContents (s t : Interpreter) : Prop where
  stack : t.machine.bench.stack = s.machine.bench.stack
  loops : t.machine.loops = s.machine.loops
  words : t.words = s.words
  depth : t.depth = s.depth

namespace SameContents

theorem refl (s : Interpreter) : SameContents s s := ⟨rfl, rfl, rfl, rfl⟩

theorem trans {s t u : Interpreter} (h : SameContents s t) (k : SameContents t u) :
    SameContents s u :=
  ⟨k.stack.trans h.stack, k.loops.trans h.loops, k.words.trans h.words, k.depth.trans h.depth⟩

theorem log (s : Interpreter) (line : Text) : SameContents s (s.log line) := by
  unfold Interpreter.log
  split
  · exact ⟨rfl, rfl, rfl, rfl⟩
  · exact refl s

theorem announce (s : Interpreter) (n : Node) : SameContents s (s.announce n) := by
  cases n with
  | block | hole => exact refl s
  | define name => exact log s _
  | _ =>
    simp only [Interpreter.announce, Interpreter.trace]
    split
    · exact log s _
    · exact refl s

theorem flush (s : Interpreter) : SameContents s s.flush.2 := ⟨rfl, rfl, rfl, rfl⟩

mutual

theorem apply (s : Interpreter) (setting : Setting) : SameContents s (setting.apply s) := by
  cases setting with
  | output | tee | maxCallDepth | tracing => exact ⟨rfl, rfl, rfl, rfl⟩
  | group settings => exact applyAll s settings
  | none => exact refl s

theorem applyAll (s : Interpreter) (settings : List Setting) :
    SameContents s (Setting.applyAll s settings) := by
  cases settings with
  | nil => exact refl s
  | cons setting rest => exact (apply s setting).trans (applyAll _ rest)

end

end SameContents

namespace Interpreter

/-- However it is set up, a fresh interpreter holds nothing. -/
theorem new_empty (out : Output) (settings : List Setting) :
    SameContents {} (new out settings) := by
  have kept := SameContents.applyAll { machine := { bench := { out } } } settings
  exact ⟨kept.stack, kept.loops, kept.words, kept.depth⟩

/-- What a host can do with a session. -/
inductive Act where
  | run (n : Node)
  | exec (src : Text)
  | push (es : List Entity)
  | pop

def act (s : Interpreter) : Act → Interpreter
  | .run n => (s.runTree n).2
  | .exec src => (s.exec src).2
  | .push es => s.push es
  | .pop => s.popTop.2

def after (s : Interpreter) (acts : List Act) : Interpreter := acts.foldl act s

theorem after_keeps {P : Interpreter → Prop} {acts : List Act}
    (kept : ∀ a ∈ acts, ∀ s : Interpreter, P s → P (s.act a)) {s : Interpreter} (start : P s) :
    P (s.after acts) := by
  induction acts generalizing s with
  | nil => exact start
  | cons a acts ih =>
    obtain ⟨first, rest⟩ := List.forall_mem_cons.1 kept
    exact ih rest (first s start)

end Interpreter
end StackLang
