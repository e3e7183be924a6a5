import StackLang.Proofs.Interpreter.Action

/-! The control state of a run. Each call and each loop that a run goes into has its frame among the
waiting ones, and nothing else touches the loops and the count of calls. So the frames can take back
what the run did to the control state, wherever it stops. -/
namespace StackLang
namespace Interpreter

abbrev Stays {α : Type} (act : Action α) (s : Interpreter) : Prop :=
  Ensures act s (fun _ t => SameControl s t) fun _ t => SameControl s t

theorem Stays.since {α : Type} {act : Action α} {s t : Interpreter} (stays : Stays act t)
    (same : SameControl s t) :
    Ensures act t (fun _ u => SameControl s u) fun _ u => SameControl s u :=
  stays.mono (fun _ _ also => same.trans also) fun _ _ also => same.trans also

theorem stays_onBench {α : Type} (act : Bench.Action α) (s : Interpreter) :
    Stays (onBench act) s := by
  apply ensures_onBench
  unfold Ensures
  split <;> exact ⟨rfl, rfl, rfl⟩

theorem stays_find (name : Text) (s : Interpreter) : Stays (find name) s := by
  unfold Stays Ensures find
  cases s.words.find? name <;> exact .refl s

theorem stays_loopIndex (depth : Int) (s : Interpreter) :
    Stays (onMachine (Machine.loopIndex depth)) s := by
  apply ensures_onMachine
  unfold Ensures Machine.loopIndex
  cases if 0 ≤ depth then s.machine.loops[depth.toNat]? else none <;> exact .refl s

theorem enterLoop_stops (limit index : Int32) {s t : Interpreter} (same : SameControl s t) :
    Ensures (onMachine (Machine.enterLoop limit index)) t (fun _ _ => True)
      fun _ u => SameControl s u := by
  apply ensures_onMachine
  unfold Ensures Machine.enterLoop
  by_cases full : maxLoops ≤ t.machine.loops.length
  · rw [if_pos full]
    exact same
  · rw [if_neg full]
    trivial

theorem perform_stops (n : Node) (s : Interpreter) :
    Ensures (perform n) s (fun _ _ => True) fun _ t => SameControl s t := by
  cases n with
  | number value => trivial
  | string text => trivial
  | op kind =>
    apply (stays_onBench (Bench.execute kind) s).bind
    exact fun _ t same => trivial
  | block body => trivial
  | call name =>
    apply (stays_find name s).bind
    intro b t same
    cases b with
    | «variable» value => trivial
    | word body =>
      change Ensures (enterWord name body) t _ _
      unfold Ensures enterWord
      by_cases full : t.callLimit ≤ t.depth
      · rw [if_pos full]
        exact same
      · rw [if_neg full]
        trivial
  | define name body => trivial
  | branch yes no =>
    apply (stays_onBench _ s).bind
    exact fun _ t same => trivial
  | loop body =>
    apply (stays_onBench _ s).bind
    intro start t first
    apply ((stays_onBench _ t).since first).bind
    intro limit u second
    apply (enterLoop_stops limit start second).bind
    -- in the loop nothing stops any more before its body is run
    intro _ v _
    unfold Ensures round
    cases v.machine.loopDone <;> trivial
  | index depth =>
    apply (stays_loopIndex depth s).bind
    exact fun _ t same => trivial
  | set name =>
    apply (stays_onBench _ s).bind
    exact fun _ t same => trivial
  | get name =>
    apply (stays_find name s).bind
    intro b t same
    cases b with
    | «variable» value => trivial
    | word body => exact same
  | hole => exact .refl s

/-- A frame only stops where it has left the control state as if it had been abandoned. -/
theorem resume_stops {frame : Frame} {s t : Interpreter} {stop : Stop}
    (stopped : resume frame s = .error stop t) : SameControl (s.abandon frame) t := by
  cases frame with
  | rest nodes =>
    cases nodes with
    | nil => cases stopped
    | cons n ns =>
      have visited : Ensures (visit n) s (fun _ _ => True) fun _ t => SameControl s t :=
        (perform_stops n (s.announce n)).mono (fun _ _ _ => trivial)
          fun _ _ same => (SameControl.announce s n).trans same
      have resumed : Ensures (resume (.rest (n :: ns))) s (fun _ _ => True)
          fun _ t => SameControl s t :=
        visited.bind fun _ _ _ => trivial
      exact resumed.error stopped
  | leave => cases stopped
  | again body =>
    simp only [resume, round] at stopped
    split at stopped <;> cases stopped

def Fits (t : Interpreter) : Frame → Prop
  | .rest _ => True
  | .leave => 0 < t.depth
  | .again _ => ∃ l outer, t.machine.loops = l :: outer ∧ l.index < l.limit

/-- Abandoned one after the other, the frames find what they wait for, and in the end the loops and
the calls of `s` are left. -/
def Held (s : Interpreter) : List Frame → Interpreter → Prop
  | [], t => SameControl s t
  | frame :: frames, t => t.Fits frame ∧ Held s frames (t.abandon frame)

theorem SameControl.abandon {s t : Interpreter} (same : SameControl s t) (frame : Frame) :
    SameControl (s.abandon frame) (t.abandon frame) := by
  cases frame with
  | rest => exact same
  | leave => exact ⟨same.loops, congrArg (· - 1) same.depth, same.limit⟩
  | again => exact ⟨congrArg List.tail same.loops, same.depth, same.limit⟩

theorem SameControl.fits {s t : Interpreter} (same : SameControl s t) {frame : Frame}
    (fits : s.Fits frame) : t.Fits frame := by
  cases frame with
  | rest => trivial
  | leave =>
    change 0 < t.depth
    rw [same.depth]
    exact fits
  | again =>
    obtain ⟨l, outer, loops, more⟩ := fits
    exact ⟨l, outer, same.loops.trans loops, more⟩

namespace Held

variable {s t u : Interpreter}

theorem same {frames : List Frame} (held : Held s frames t) (same : SameControl t u) :
    Held s frames u := by
  induction frames generalizing t u with
  | nil => exact SameControl.trans held same
  | cons frame frames ih => exact ⟨same.fits held.1, ih held.2 (same.abandon frame)⟩

theorem abandoned {gone left : List Frame} (held : Held s (gone ++ left) t) :
    Held s left (gone.foldl abandon t) := by
  induction gone generalizing t with
  | nil => exact held
  | cons frame gone ih => exact ih held.2

theorem unwound {frames : List Frame} (held : Held s frames t) :
    SameControl s (frames.foldl abandon t) := by
  have all : Held s (frames ++ []) t := by rwa [List.append_nil]
  exact all.abandoned

theorem limit {frames : List Frame} (held : Held s frames t) :
    t.maxCallDepth = s.maxCallDepth := by
  induction frames generalizing t with
  | nil => exact SameControl.limit held
  | cons frame frames ih =>
    have kept : (t.abandon frame).maxCallDepth = t.maxCallDepth := by cases frame <;> rfl
    rw [← kept]
    exact ih held.2

theorem opens {n : Node} {inner frames : List Frame} (held : Held s frames t)
    (opened : Opens t n inner u) : Held s (inner ++ frames) u := by
  cases opened with
  | nothing same => exact held.same same
  | block same | branch _ same => exact ⟨trivial, held.same same⟩
  | word room loops depth limit =>
    have entered : 0 < u.depth := by omega
    have back : SameControl t (u.abandon .leave) :=
      ⟨loops, by change u.depth - 1 = t.depth; omega, limit⟩
    exact ⟨trivial, entered, held.same back⟩
  | @rounds body _ l room loops more depth limit =>
    have back : SameControl t (u.abandon (.again body)) :=
      ⟨by change u.machine.loops.tail = _; rw [loops]; rfl, depth, limit⟩
    exact ⟨trivial, ⟨l, _, loops, more⟩, held.same back⟩

theorem resume {frame : Frame} {inner frames : List Frame} (held : Held s (frame :: frames) t)
    (resumed : Interpreter.resume frame t = .ok inner u) : Held s (inner ++ frames) u := by
  cases frame with
  | rest nodes =>
    cases nodes with
    | nil =>
      cases resumed
      exact held.2
    | cons n ns =>
      obtain ⟨opened, v, visited, done⟩ := bind_ok resumed
      obtain ⟨rfl, rfl⟩ := pure_ok done
      have announced : Held s (.rest ns :: frames) (t.announce n) :=
        ⟨trivial, held.2.same (.announce t n)⟩
      rw [List.append_assoc]
      exact announced.opens (perform_opens visited)
  | leave =>
    cases resumed
    exact held.2
  | again body =>
    obtain ⟨⟨l, outer, loops, more⟩, below⟩ := held
    -- `below` has the loop left already, so counting it up is nothing to the frames behind
    simp only [Interpreter.resume, round, Machine.loopDone, Machine.stepLoop, loops] at resumed
    by_cases passed : l.limit ≤ l.index + 1
    · simp only [passed, decide_true, if_true] at resumed
      cases resumed
      refine below.same ⟨?_, rfl, rfl⟩
      simp [Interpreter.abandon, Machine.exitLoop, loops]
    · simp only [passed, decide_false] at resumed
      cases resumed
      refine ⟨trivial, ⟨_, outer, rfl, Int32.not_le.1 passed⟩, below.same ⟨?_, rfl, rfl⟩⟩
      simp [Interpreter.abandon, Machine.exitLoop, loops]

theorem reached {first frames : List Frame} (held : Held s first t)
    (reached : Reaches first t frames u) : Held s frames u := by
  refine reached.keeps (fun frames v later w held stepped => ?_) held
  obtain ⟨frame, waiting, inner, rfl, resumed, rfl⟩ := step_more stepped
  exact held.resume resumed

end Held

theorem held_start (n : Node) (s : Interpreter) : Held s [.rest [n]] s := ⟨trivial, .refl s⟩

/-- A run of one node ends with the loops and the calls that it began with. -/
theorem run_sameControl (n : Node) (s : Interpreter) : SameControl s (run [.rest [n]] s).2 := by
  obtain ⟨last, t, reached, stepped⟩ := run_reaches [.rest [n]] s
  have held := (held_start n s).reached reached
  rcases step_ended stepped with ⟨rfl, -, ended⟩ | ⟨frame, waiting, why, u, rfl, stopped, -, ended⟩
  · rw [ended]
    exact held
  · -- the frame that stopped is left as if abandoned, and the waiting ones are abandoned
    rw [ended]
    exact (held.2.same (resume_stops stopped)).unwound

/-- No more loops than there are letters, and no more calls than allowed. -/
structure InBounds (calls : Nat) (t : Interpreter) : Prop where
  loops : t.machine.loops.length ≤ maxLoops
  depth : t.depth ≤ calls

example : maxLoops = 5 := rfl

/-- The states that a run passes through: while a frame is resumed, in a loop just entered, in a
loop just counted up, and on the way out of the frames where the run stops or is broken off. -/
inductive Passes (first : List Frame) (s : Interpreter) : Interpreter → Prop
  | during {frames : List Frame} {t u : Interpreter} (reached : Reaches first s frames t)
    (same : SameControl t u) : Passes first s u
  | entering {frames : List Frame} {t u : Interpreter} {limit index : Int32} {machine : Machine}
    (reached : Reaches first s frames t) (same : SameControl t u)
    (entered : Machine.enterLoop limit index u.machine = .ok () machine) :
    Passes first s { u with machine }
  | counting {body : List Node} {frames : List Frame} {t : Interpreter}
    (reached : Reaches first s (.again body :: frames) t) :
    Passes first s { t with machine := t.machine.stepLoop }
  | leaving {gone left : List Frame} {t u : Interpreter} (reached : Reaches first s (gone ++ left) t)
    (same : SameControl t u) : Passes first s (gone.foldl abandon u)

namespace InBounds

variable {calls : Nat} {s t u : Interpreter}

theorem same (bounds : InBounds calls t) (same : SameControl t u) : InBounds calls u := by
  constructor
  · rw [same.loops]
    exact bounds.loops
  · rw [same.depth]
    exact bounds.depth

theorem abandon (bounds : InBounds calls t) (frame : Frame) : InBounds calls (t.abandon frame) := by
  cases frame with
  | rest => exact bounds
  | leave => exact ⟨bounds.loops, Nat.le_trans (Nat.sub_le _ _) bounds.depth⟩
  | again =>
    have shorter : t.machine.loops.tail.length ≤ maxLoops := by
      rw [List.length_tail]
      exact Nat.le_trans (Nat.sub_le _ _) bounds.loops
    exact ⟨shorter, bounds.depth⟩

theorem abandonAll (bounds : InBounds calls t) (frames : List Frame) :
    InBounds calls (frames.foldl Interpreter.abandon t) := by
  induction frames generalizing t with
  | nil => exact bounds
  | cons frame frames ih => exact ih (bounds.abandon frame)

theorem enterLoop {limit index : Int32} {machine : Machine} (bounds : InBounds calls t)
    (entered : Machine.enterLoop limit index t.machine = .ok () machine) :
    InBounds calls { t with machine } := by
  unfold Machine.enterLoop at entered
  split at entered
  · cases entered
  · rename_i room
    cases entered
    exact ⟨by simp only [List.length_cons]; omega, bounds.depth⟩

theorem stepLoop (bounds : InBounds calls t) :
    InBounds calls { t with machine := t.machine.stepLoop } := by
  refine ⟨?_, bounds.depth⟩
  have loops := bounds.loops
  cases held : t.machine.loops with
  | nil => simp [Machine.stepLoop, held]
  | cons l outer =>
    rw [held] at loops
    simpa [Machine.stepLoop, held] using loops

theorem round {body : List Node} {inner : List Frame} (bounds : InBounds calls t)
    (done : Interpreter.round body t = .ok inner u) : InBounds calls u := by
  unfold Interpreter.round at done
  split at done
  · cases done
    exact bounds.abandon (.again body)
  · cases done
    exact bounds

theorem opens {n : Node} {inner : List Frame} (bounds : InBounds t.callLimit t)
    (opened : Opens t n inner u) : InBounds t.callLimit u := by
  cases opened with
  | nothing same | block same | branch _ same => exact bounds.same same
  | word room loops depth limit =>
    constructor
    · rw [loops]
      exact bounds.loops
    · omega
  | rounds room loops more depth limit =>
    constructor
    · rw [loops, List.length_cons]
      omega
    · rw [depth]
      exact bounds.depth

theorem resume {frame : Frame} {inner frames : List Frame} (bounds : InBounds s.callLimit t)
    (held : Held s (frame :: frames) t) (resumed : Interpreter.resume frame t = .ok inner u) :
    InBounds s.callLimit u := by
  cases frame with
  | rest nodes =>
    cases nodes with
    | nil =>
      cases resumed
      exact bounds
    | cons n ns =>
      obtain ⟨opened, v, visited, done⟩ := bind_ok resumed
      obtain ⟨rfl, rfl⟩ := pure_ok done
      have announced := SameControl.announce t n
      have limit : (t.announce n).callLimit = s.callLimit := by
        rw [announced.callLimit]
        simp only [callLimit, held.limit]
      rw [← limit] at bounds ⊢
      exact (bounds.same announced).opens (perform_opens visited)
  | leave =>
    cases resumed
    exact bounds.abandon .leave
  | again body => exact bounds.stepLoop.round resumed

/-- A run that starts within the bounds passes through no state beyond them. -/
theorem passes {first : List Frame} (bounds : InBounds s.callLimit s) (held : Held s first s)
    (passed : Passes first s t) : InBounds s.callLimit t := by
  have reached {frames : List Frame} {u : Interpreter} (there : Reaches first s frames u) :
      InBounds s.callLimit u := by
    have both : Held s frames u ∧ InBounds s.callLimit u := by
      refine there.keeps (P := fun frames v => Held s frames v ∧ InBounds s.callLimit v) ?_
        ⟨held, bounds⟩
      rintro frames v later w ⟨held, bounds⟩ stepped
      obtain ⟨frame, waiting, inner, rfl, resumed, rfl⟩ := step_more stepped
      exact ⟨held.resume resumed, bounds.resume held resumed⟩
    exact both.2
  cases passed with
  | during there same => exact (reached there).same same
  | entering there same entered => exact ((reached there).same same).enterLoop entered
  | counting there => exact (reached there).stepLoop
  | leaving there same => exact ((reached there).same same).abandonAll _

end InBounds

end Interpreter
end StackLang
