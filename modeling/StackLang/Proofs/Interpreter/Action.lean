import StackLang.Interpreter.Run

/-! How to reason about actions and runs. An action has one condition for the states in which it
ends well and one for those in which it stops; a run keeps what each of its steps keeps. -/
namespace StackLang

/-- However the action ends, the state and the result fulfil the condition for that end. -/
def Ensures {σ α : Type} (act : EStateM Stop σ α) (s : σ) (good : α → σ → Prop)
    (bad : Stop → σ → Prop) : Prop :=
  match act s with
  | .ok a t => good a t
  | .error stop t => bad stop t

namespace Ensures

variable {σ α β : Type} {act : EStateM Stop σ α} {s : σ} {bad : Stop → σ → Prop}

theorem ok {good : α → σ → Prop} (h : Ensures act s good bad) {a : α} {t : σ}
    (done : act s = .ok a t) : good a t := by
  simpa [Ensures, done] using h

theorem error {good : α → σ → Prop} (h : Ensures act s good bad) {stop : Stop} {t : σ}
    (stopped : act s = .error stop t) : bad stop t := by
  simpa [Ensures, stopped] using h

theorem bind {next : α → EStateM Stop σ β} {middle : α → σ → Prop} {good : β → σ → Prop}
    (first : Ensures act s middle bad)
    (second : ∀ a t, middle a t → Ensures (next a) t good bad) :
    Ensures (act >>= next) s good bad := by
  change match EStateM.bind act next s with
    | .ok a t => good a t
    | .error stop t => bad stop t
  unfold Ensures at first
  unfold EStateM.bind
  cases acted : act s with
  | ok a t =>
    rw [acted] at first
    exact second a t first
  | error stop t =>
    rw [acted] at first
    exact first

theorem mono {good better : α → σ → Prop} {worse : Stop → σ → Prop}
    (h : Ensures act s good bad) (goods : ∀ a t, good a t → better a t)
    (bads : ∀ stop t, bad stop t → worse stop t) : Ensures act s better worse := by
  unfold Ensures at h ⊢
  split at h
  · exact goods _ _ h
  · exact bads _ _ h

end Ensures

namespace Interpreter

theorem ensures_onMachine {α : Type} {act : Machine.Action α} {s : Interpreter}
    {good : α → Interpreter → Prop} {bad : Stop → Interpreter → Prop}
    (h : Ensures act s.machine (fun a machine => good a { s with machine })
      fun stop machine => bad stop { s with machine }) :
    Ensures (onMachine act) s good bad := by
  unfold Ensures onMachine at *
  split at h <;> simp_all

theorem ensures_onBench {α : Type} {act : Bench.Action α} {s : Interpreter}
    {good : α → Interpreter → Prop} {bad : Stop → Interpreter → Prop}
    (h : Ensures act s.machine.bench (fun a bench => good a { s with machine.bench := bench })
      fun stop bench => bad stop { s with machine.bench := bench }) :
    Ensures (onBench act) s good bad := by
  apply ensures_onMachine
  unfold Ensures Machine.onBench at *
  split at h <;> simp_all

theorem log_on {s : Interpreter} {logger : Nat} (on : s.tracing = some logger) (line : Text) :
    s.log line =
      { s with machine.bench.out := s.machine.bench.out.note (.trace ⟨logger, line⟩) } := by
  rw [Interpreter.log, on]

theorem log_off {s : Interpreter} (off : s.tracing = none) (line : Text) : s.log line = s := by
  rw [Interpreter.log, off]

theorem announce_eq (s : Interpreter) (n : Node) :
    ∃ out, s.announce n = { s with machine.bench.out := out } ∧
      (out = s.machine.bench.out ∨ ∃ line, out = s.machine.bench.out.note (.trace line)) := by
  have log (line : Text) : ∃ out, s.log line = { s with machine.bench.out := out } ∧
      (out = s.machine.bench.out ∨ ∃ line, out = s.machine.bench.out.note (.trace line)) := by
    unfold Interpreter.log
    split
    · exact ⟨_, rfl, .inr ⟨_, rfl⟩⟩
    · exact ⟨_, rfl, .inl rfl⟩
  cases n with
  | block | hole => exact ⟨_, rfl, .inl rfl⟩
  | define name => exact log _
  | _ =>
    simp only [announce, trace]
    split
    · exact log _
    · exact ⟨_, rfl, .inl rfl⟩

theorem step_more {frames later : List Frame} {s t : Interpreter}
    (stepped : step frames s = .more later t) :
    ∃ frame waiting inner, frames = frame :: waiting ∧ resume frame s = .ok inner t ∧
      later = inner ++ waiting := by
  cases frames with
  | nil => cases stepped
  | cons frame waiting =>
    simp only [step] at stepped
    cases resumed : resume frame s with
    | ok inner u =>
      rw [resumed] at stepped
      cases stepped
      exact ⟨frame, waiting, inner, rfl, resumed, rfl⟩
    | error stop u =>
      rw [resumed] at stepped
      cases stepped

theorem step_ended {frames : List Frame} {s t : Interpreter} {stop : Option Stop}
    (stepped : step frames s = .ended stop t) :
    frames = [] ∧ stop = none ∧ t = s ∨
      ∃ frame waiting why u, frames = frame :: waiting ∧ resume frame s = .error why u ∧
        stop = some why ∧ t = waiting.foldl abandon u := by
  cases frames with
  | nil =>
    cases stepped
    exact .inl ⟨rfl, rfl, rfl⟩
  | cons frame waiting =>
    simp only [step] at stepped
    cases resumed : resume frame s with
    | ok inner u =>
      rw [resumed] at stepped
      cases stepped
    | error why u =>
      rw [resumed] at stepped
      cases stepped
      exact .inr ⟨frame, waiting, why, u, rfl, resumed, rfl, rfl⟩

theorem run_of_more {frames later : List Frame} {s t : Interpreter}
    (stepped : step frames s = .more later t) : run frames s = run later t := by
  rw [run]
  split
  · rename_i ended
    rw [stepped] at ended
    cases ended
  · rename_i more
    rw [stepped] at more
    cases more
    rfl

theorem run_of_ended {frames : List Frame} {s t : Interpreter} {stop : Option Stop}
    (stepped : step frames s = .ended stop t) : run frames s = (stop, t) := by
  rw [run]
  split
  · rename_i ended
    rw [stepped] at ended
    cases ended
    rfl
  · rename_i more
    rw [stepped] at more
    cases more

theorem runNode_stop (s : Interpreter) (n : Node) :
    (s.runNode n).1 = (run [.rest [n]] s).1 := by
  unfold runNode
  split
  · rename_i ran
    rw [ran]
  · rfl

/-- The states that a run comes to. -/
inductive Reaches (first : List Frame) (s : Interpreter) : List Frame → Interpreter → Prop
  | start : Reaches first s first s
  | step {frames later : List Frame} {t u : Interpreter} (before : Reaches first s frames t)
    (stepped : Interpreter.step frames t = .more later u) : Reaches first s later u

namespace Reaches

theorem head {first frames last : List Frame} {s t u : Interpreter}
    (stepped : Interpreter.step first s = .more frames t) (rest : Reaches frames t last u) :
    Reaches first s last u := by
  induction rest with
  | start => exact .step .start stepped
  | step before next ih => exact .step ih next

theorem keeps {P : List Frame → Interpreter → Prop}
    (more : ∀ frames s later t, P frames s → Interpreter.step frames s = .more later t → P later t)
    {first frames : List Frame} {s t : Interpreter} (reached : Reaches first s frames t)
    (start : P first s) : P frames t := by
  induction reached with
  | start => exact start
  | step before stepped ih => exact more _ _ _ _ ih stepped

theorem run_eq {first frames : List Frame} {s t : Interpreter}
    (reached : Reaches first s frames t) : run first s = run frames t := by
  induction reached with
  | start => rfl
  | step before stepped ih => exact ih.trans (run_of_more stepped)

end Reaches

/-- A run comes to a last state, and what it gives is the end found there. -/
theorem run_reaches (frames : List Frame) (s : Interpreter) :
    ∃ last t, Reaches frames s last t ∧ step last t = .ended (run frames s).1 (run frames s).2 := by
  fun_induction run frames s with
  | case1 frames s stop t stepped => exact ⟨frames, s, .start, stepped⟩
  | case2 frames s later t stepped ih =>
    obtain ⟨last, u, reached, ended⟩ := ih
    exact ⟨last, u, .head stepped reached, ended⟩

/-- What every step keeps, every run keeps to its end. -/
theorem run_ensures {P : List Frame → Interpreter → Prop} {Q : Option Stop → Interpreter → Prop}
    (more : ∀ frames s later t, P frames s → step frames s = .more later t → P later t)
    (ended : ∀ frames s stop t, P frames s → step frames s = .ended stop t → Q stop t)
    (frames : List Frame) (s : Interpreter) (start : P frames s) :
    Q (run frames s).1 (run frames s).2 := by
  obtain ⟨last, t, reached, stepped⟩ := run_reaches frames s
  exact ended last t _ _ (reached.keeps more start) stepped

end Interpreter
end StackLang
