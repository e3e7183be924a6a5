import StackLang.Interpreter

/-! Every run ends: a step lowers the calls left, the nodes left or the rounds left of a loop, in
this order of weight. So `run` needs no fuel. -/
namespace StackLang
namespace Interpreter

/-- One state comes after another in a run. -/
def Follows (later earlier : List Frame × Interpreter) : Prop :=
  step earlier.1 earlier.2 = .more later.1 later.2

structure SameControl (s t : Interpreter) : Prop where
  loops : t.machine.loops = s.machine.loops
  depth : t.depth = s.depth
  limit : t.maxCallDepth = s.maxCallDepth

namespace SameControl

theorem refl (s : Interpreter) : SameControl s s := ⟨rfl, rfl, rfl⟩

theorem trans {s t u : Interpreter} (h : SameControl s t) (k : SameControl t u) :
    SameControl s u :=
  ⟨k.loops.trans h.loops, k.depth.trans h.depth, k.limit.trans h.limit⟩

theorem callLimit {s t : Interpreter} (h : SameControl s t) : t.callLimit = s.callLimit := by
  simp [Interpreter.callLimit, h.limit]

theorem log (s : Interpreter) (line : Text) : SameControl s (s.log line) := by
  unfold Interpreter.log
  split
  · exact ⟨rfl, rfl, rfl⟩
  · exact refl s

theorem announce (s : Interpreter) (n : Node) : SameControl s (s.announce n) := by
  cases n with
  | block | hole => exact refl s
  | define name => exact log s _
  | _ =>
    simp only [Interpreter.announce, Interpreter.trace]
    split
    · exact log s _
    · exact refl s

theorem onBench {α : Type} {act : Bench.Action α} {a : α} {s t : Interpreter}
    (done : Interpreter.onBench act s = .ok a t) : SameControl s t := by
  simp only [Interpreter.onBench, onMachine, Machine.onBench] at done
  cases acted : act s.machine.bench with
  | ok b bench =>
    simp only [acted] at done
    cases done
    exact ⟨rfl, rfl, rfl⟩
  | error e bench => simp [acted] at done

theorem find {name : Text} {b : Binding} {s t : Interpreter}
    (done : Interpreter.find name s = .ok b t) : t = s := by
  unfold Interpreter.find at done
  split at done
  · cases done; rfl
  · cases done

end SameControl

theorem bind_ok {α β : Type} {act : Action α} {next : α → Action β} {b : β} {s u : Interpreter}
    (done : (act >>= next) s = .ok b u) : ∃ a t, act s = .ok a t ∧ next a t = .ok b u := by
  change EStateM.bind act next s = _ at done
  unfold EStateM.bind at done
  split at done
  · exact ⟨_, _, by assumption, done⟩
  · cases done

/-- A node is done with the same loops and calls, opens a body, goes into a word, or starts the
rounds of a loop. -/
inductive Opens (s : Interpreter) : Node → List Frame → Interpreter → Prop
  | nothing {n : Node} {t : Interpreter} (same : SameControl s t) : Opens s n [] t
  | block {body : List Node} {t : Interpreter} (same : SameControl s t) :
    Opens s (.block body) [.rest body] t
  | branch {yes no : List Node} {t : Interpreter} (condition : Prop) [Decidable condition]
    (same : SameControl s t) : Opens s (.branch yes no) [.rest (if condition then yes else no)] t
  | word {name : Text} {body : List Node} {t : Interpreter} (room : s.depth < s.callLimit)
    (loops : t.machine.loops = s.machine.loops) (depth : t.depth = s.depth + 1)
    (limit : t.maxCallDepth = s.maxCallDepth) : Opens s (.call name) [.rest body, .leave] t
  | rounds {body : List Node} {t : Interpreter} {l : LoopCounter}
    (room : s.machine.loops.length < maxLoops)
    (loops : t.machine.loops = l :: s.machine.loops) (more : l.index < l.limit)
    (depth : t.depth = s.depth) (limit : t.maxCallDepth = s.maxCallDepth) :
    Opens s (.loop body) [.rest body, .again body] t

theorem pure_ok {α : Type} {a b : α} {s t : Interpreter} (done : (pure a : Action α) s = .ok b t) :
    b = a ∧ t = s := by
  cases done
  exact ⟨rfl, rfl⟩

theorem push_opens {s t u : Interpreter} {n : Node} {e : Entity} {inner : List Frame}
    (same : SameControl s t)
    (done : (do onBench (Bench.push e); return ([] : List Frame) : Action (List Frame)) t =
      .ok inner u) : Opens s n inner u := by
  obtain ⟨_, v, pushed, done⟩ := bind_ok done
  obtain ⟨rfl, rfl⟩ := pure_ok done
  exact .nothing (same.trans (.onBench pushed))

theorem perform_opens {n : Node} {s t : Interpreter} {inner : List Frame}
    (done : perform n s = .ok inner t) : Opens s n inner t := by
  cases n with
  | number value => exact push_opens (.refl s) done
  | string text =>
    obtain ⟨_, u, pushed, done⟩ := bind_ok done
    obtain ⟨rfl, rfl⟩ := pure_ok done
    exact .nothing (.onBench pushed)
  | op kind =>
    obtain ⟨_, u, executed, done⟩ := bind_ok done
    obtain ⟨rfl, rfl⟩ := pure_ok done
    exact .nothing (.onBench executed)
  | block body =>
    obtain ⟨rfl, rfl⟩ := pure_ok done
    exact .block (.refl _)
  | call name =>
    obtain ⟨b, u, found, done⟩ := bind_ok done
    cases SameControl.find found
    cases b with
    | «variable» value => exact push_opens (.refl _) done
    | word body =>
      simp only [enterWord] at done
      split at done
      · cases done
      · cases done
        exact .word (by omega) rfl rfl rfl
  | define name body =>
    obtain ⟨_, u, bound, done⟩ := bind_ok done
    obtain ⟨rfl, rfl⟩ := pure_ok done
    cases bound
    exact .nothing ⟨rfl, rfl, rfl⟩
  | branch yes no =>
    obtain ⟨c, u, popped, done⟩ := bind_ok done
    obtain ⟨rfl, rfl⟩ := pure_ok done
    exact .branch _ (.onBench popped)
  | loop body =>
    obtain ⟨start, u, first, done⟩ := bind_ok done
    obtain ⟨limit, v, second, done⟩ := bind_ok done
    obtain ⟨_, w, entered, done⟩ := bind_ok done
    have same := (SameControl.onBench first).trans (.onBench second)
    simp only [onMachine, Machine.enterLoop] at entered
    split at entered
    · rename_i ok
      split at ok
      · cases ok
      · rename_i room
        rw [same.loops] at room
        cases ok
        cases entered
        by_cases passed : limit ≤ start
        · simp only [round, Machine.loopDone, passed, decide_true, if_true] at done
          cases done
          exact .nothing ⟨same.loops, same.depth, same.limit⟩
        · simp only [round, Machine.loopDone, passed, decide_false] at done
          cases done
          exact .rounds (by omega) (congrArg _ same.loops) (Int32.not_le.1 passed) same.depth
            same.limit
    · cases entered
  | index depth =>
    obtain ⟨i, u, read, done⟩ := bind_ok done
    refine push_opens ?_ done
    simp only [onMachine, Machine.loopIndex] at read
    split at read
    · rename_i ok
      split at ok
      · cases ok
        cases read
        exact .refl _
      · cases ok
    · cases read
  | set name =>
    obtain ⟨e, u, popped, done⟩ := bind_ok done
    obtain ⟨_, v, bound, done⟩ := bind_ok done
    obtain ⟨rfl, rfl⟩ := pure_ok done
    cases bound
    have same := SameControl.onBench popped
    exact .nothing ⟨same.loops, same.depth, same.limit⟩
  | get name =>
    obtain ⟨b, u, found, done⟩ := bind_ok done
    cases SameControl.find found
    cases b with
    | «variable» value => exact push_opens (.refl _) done
    | word body => cases done
  | hole => cases done

theorem acc_of_step {frames : List Frame} {s : Interpreter}
    (next : ∀ later t, step frames s = .more later t → Acc Follows (later, t)) :
    Acc Follows (frames, s) :=
  .intro _ fun (later, t) follows => next later t follows

def LoopCounter.left (l : LoopCounter) : Nat := (l.limit.toInt - l.index.toInt).toNat

theorem index_next {l : LoopCounter} (more : l.index < l.limit) :
    (l.index + 1).toInt = l.index.toInt + 1 := by
  have below := Int32.lt_iff_toInt_lt.1 more
  have top := l.limit.toInt_lt
  have bottom := l.index.le_toInt
  rw [Int32.toInt_add]
  exact Int.bmod_eq_of_le (by simp; omega) (by simp; omega)

theorem left_step {l : LoopCounter} (more : l.index < l.limit) :
    LoopCounter.left { l with index := l.index + 1 } < LoopCounter.left l := by
  have below := Int32.lt_iff_toInt_lt.1 more
  simp only [LoopCounter.left, index_next more]
  omega

/-- If a body ends before any continuation that does, so do all rounds of its loop. -/
theorem acc_rounds {body : List Node} {s : Interpreter} {waiting : List Frame}
    (ends : ∀ (after : List Frame) (t : Interpreter), t.depth = s.depth →
      t.maxCallDepth = s.maxCallDepth → (∀ u, SameControl t u → Acc Follows (after, u)) →
        Acc Follows (.rest body :: after, t))
    (later : ∀ t, SameControl s t → Acc Follows (waiting, t)) (left : Nat) :
    ∀ (l : LoopCounter) (t : Interpreter), LoopCounter.left l ≤ left → l.index < l.limit →
      t.machine.loops = l :: s.machine.loops → t.depth = s.depth →
        t.maxCallDepth = s.maxCallDepth →
          Acc Follows (.rest body :: .again body :: waiting, t) := by
  induction left with
  | zero =>
    intro l t few more
    have := left_step more
    omega
  | succ left ih =>
    intro l t few more loops depth limit
    refine ends _ t depth limit fun u same => acc_of_step fun frames v stepped => ?_
    have entered : u.machine.loops = l :: s.machine.loops := same.loops.trans loops
    have fewer := left_step more
    simp only [step, resume, round, Machine.loopDone, Machine.stepLoop, entered] at stepped
    by_cases passed : l.limit ≤ l.index + 1
    · simp only [passed, decide_true, if_true] at stepped
      cases stepped
      exact later _ ⟨by simp [Machine.exitLoop], same.depth.trans depth, same.limit.trans limit⟩
    · simp only [passed, decide_false] at stepped
      cases stepped
      exact ih { l with index := l.index + 1 } _ (by omega) (Int32.not_le.1 passed) rfl
        (same.depth.trans depth) (same.limit.trans limit)

/-- A body ends before any continuation that does, whatever the words are bound to. -/
theorem acc_rest (calls : Nat) :
    ∀ (size : Nat) (nodes : List Node) (s : Interpreter) (waiting : List Frame),
      sizeOf nodes ≤ size → s.callLimit - s.depth = calls →
        (∀ t, SameControl s t → Acc Follows (waiting, t)) →
          Acc Follows (.rest nodes :: waiting, s) := by
  induction calls using Nat.strongRecOn with
  | ind calls deeper =>
    intro size
    induction size with
    | zero =>
      intro nodes s waiting small
      cases nodes <;> simp at small
    | succ size smaller =>
      intro nodes s waiting small room later
      refine acc_of_step fun frames t stepped => ?_
      cases nodes with
      | nil =>
        cases stepped
        exact later _ (.refl _)
      | cons n ns =>
        have size_ns : sizeOf ns ≤ size := by simp at small; omega
        have size_n : sizeOf n ≤ size := by simp at small; omega
        have inside (body : List Node) (fits : sizeOf body < sizeOf n) (after : List Frame)
            (u : Interpreter) (depth : u.depth = s.depth)
            (limit : u.maxCallDepth = s.maxCallDepth)
            (ends : ∀ v, SameControl u v → Acc Follows (after, v)) :
            Acc Follows (.rest body :: after, u) :=
          smaller body u after (by omega) (by simp only [callLimit, limit, depth] at *; exact room)
            ends
        have rest (u : Interpreter) (same : SameControl s u) :
            Acc Follows (.rest ns :: waiting, u) :=
          smaller ns u waiting size_ns (by rw [same.callLimit, same.depth]; exact room)
            fun v also => later v (same.trans also)
        simp only [step] at stepped
        split at stepped
        · rename_i inner u resumed
          cases stepped
          obtain ⟨opened, v, visited, done⟩ := bind_ok resumed
          obtain ⟨rfl, rfl⟩ := pure_ok done
          have announced := SameControl.announce s n
          cases perform_opens visited with
          | nothing same => exact rest _ (announced.trans same)
          | block same =>
            have same := announced.trans same
            exact inside _ (by simp) _ _ same.depth same.limit
              fun w also => rest w (same.trans also)
          | branch condition same =>
            have same := announced.trans same
            refine inside _ ?_ _ _ same.depth same.limit fun w also => rest w (same.trans also)
            rw [Node.branch.sizeOf_spec]
            split <;> omega
          | word free loops depth limit =>
            refine deeper (t.callLimit - t.depth) ?_ _ _ t _ (Nat.le_refl _) rfl
              fun w same => acc_of_step fun frames x stepped => ?_
            · rw [announced.callLimit, announced.depth] at free
              have entered : t.callLimit = s.callLimit := by
                simp only [callLimit, limit.trans announced.limit]
              rw [entered, depth, announced.depth]
              omega
            · cases stepped
              refine rest _ ⟨(same.loops.trans loops).trans announced.loops, ?_,
                (same.limit.trans limit).trans announced.limit⟩
              change w.depth - 1 = s.depth
              rw [same.depth, depth, announced.depth]
              rfl
          | @rounds body _ _ _ loops more depth limit =>
            exact acc_rounds (inside body (by simp)) rest _ _ t (Nat.le_refl _) more
              (loops.trans (congrArg _ announced.loops)) (depth.trans announced.depth)
              (limit.trans announced.limit)
        · cases stepped

/-- There is no run without an end. -/
theorem acc_follows (frames : List Frame) : ∀ s, Acc Follows (frames, s) := by
  induction frames with
  | nil => exact fun s => acc_of_step fun later t stepped => by cases stepped
  | cons frame waiting ih =>
    intro s
    cases frame with
    | rest nodes => exact acc_rest _ _ nodes s waiting (Nat.le_refl _) rfl fun t _ => ih t
    | leave =>
      refine acc_of_step fun later t stepped => ?_
      cases stepped
      exact ih _
    | again body =>
      have ends (after : List Frame) (t : Interpreter)
          (next : ∀ u, SameControl t u → Acc Follows (after, u)) :
          Acc Follows (.rest body :: after, t) :=
        acc_rest _ _ body t after (Nat.le_refl _) rfl next
      refine acc_of_step fun later t stepped => ?_
      cases loops : s.machine.loops with
      | nil =>
        simp only [step, resume, round, Machine.loopDone, Machine.stepLoop, loops] at stepped
        cases stepped
        exact ih _
      | cons l outer =>
        simp only [step, resume, round, Machine.loopDone, Machine.stepLoop, loops] at stepped
        by_cases passed : l.limit ≤ l.index + 1
        · simp only [passed, decide_true, if_true] at stepped
          cases stepped
          exact ih _
        · simp only [passed, decide_false] at stepped
          cases stepped
          let base : Interpreter := { s with machine.loops := outer }
          exact acc_rounds (s := base) (fun after t _ _ => ends after t) (fun t _ => ih t) _
            { l with index := l.index + 1 } _ (Nat.le_refl _) (Int32.not_le.1 passed) rfl rfl rfl

instance : WellFoundedRelation (List Frame × Interpreter) where
  rel := Follows
  wf := ⟨fun (frames, s) => acc_follows frames s⟩

/-- Runs the frames to their end: what stopped them, and the state that is left. -/
def run (frames : List Frame) (s : Interpreter) : Option Stop × Interpreter :=
  match _stepped : step frames s with
  | .ended stop t => (stop, t)
  | .more later t => run later t
termination_by (frames, s)
decreasing_by exact _stepped

/-- Runs a node; a fault is noted in the trace. -/
def runNode (s : Interpreter) (n : Node) : Option Stop × Interpreter :=
  match run [.rest [n]] s with
  | (some (.fault f), t) =>
    (some (.fault f), t.log (utf8 "halt error: " ++ (Failure.ofFault f).message))
  | r => r

end Interpreter
end StackLang
