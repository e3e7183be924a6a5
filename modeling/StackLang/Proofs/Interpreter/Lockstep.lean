import StackLang.Proofs.Interpreter.Action

/-! Two runs side by side. A relation between states that the single actions respect is respected
by whole runs: they end alike, unless the first one stops for a reason that excuses the second. Each
run may bring an invariant of its own, which knows what is still to be run. -/
namespace StackLang

/-- Two results of an action: the same, in related states, or a first one that is excused. -/
inductive Agree {σ α : Type} (R : σ → σ → Prop) (excused : Stop → Prop) :
    EStateM.Result Stop σ α → EStateM.Result Stop σ α → Prop
  | ok {a : α} {s t : σ} (related : R s t) : Agree R excused (.ok a s) (.ok a t)
  | error {stop : Stop} {s t : σ} (related : R s t) :
      Agree R excused (.error stop s) (.error stop t)
  | excused {stop : Stop} {s : σ} {other : EStateM.Result Stop σ α} (excuse : excused stop) :
      Agree R excused (.error stop s) other

def Respects {σ α : Type} (R : σ → σ → Prop) (excused : Stop → Prop)
    (act : EStateM Stop σ α) : Prop :=
  ∀ s t, R s t → Agree R excused (act s) (act t)

section

variable {σ α β : Type} {R : σ → σ → Prop} {excused : Stop → Prop}

theorem Agree.bind {act : EStateM Stop σ α} {next : α → EStateM Stop σ β} {s t : σ}
    (first : Agree R excused (act s) (act t)) (second : ∀ a, Respects R excused (next a)) :
    Agree R excused ((act >>= next) s) ((act >>= next) t) := by
  change Agree R excused (EStateM.bind act next s) (EStateM.bind act next t)
  unfold EStateM.bind
  generalize act s = here at first ⊢
  generalize act t = there at first ⊢
  cases first with
  | ok related => exact second _ _ _ related
  | error related => exact .error related
  | excused excuse => exact .excused excuse

theorem Respects.bind {act : EStateM Stop σ α} {next : α → EStateM Stop σ β}
    (first : Respects R excused act) (second : ∀ a, Respects R excused (next a)) :
    Respects R excused (act >>= next) :=
  fun s t related => (first s t related).bind second

theorem Respects.mono {weaker : Stop → Prop} {act : EStateM Stop σ α}
    (respects : Respects R excused act)
    (excuse : ∀ stop, excused stop → weaker stop) : Respects R weaker act := by
  intro s t related
  have agree := respects s t related
  generalize act s = here at agree ⊢
  generalize act t = there at agree ⊢
  cases agree with
  | ok related => exact .ok related
  | error related => exact .error related
  | excused given => exact .excused (excuse _ given)

theorem respects_pure (a : α) : Respects R excused (pure a : EStateM Stop σ α) :=
  fun _ _ related => .ok related

theorem respects_throw (stop : Stop) : Respects R excused (throw stop : EStateM Stop σ α) :=
  fun _ _ related => .error related

end

def Node.Reads (name : Text) : Node → Prop
  | .call other | .get other => other = name
  | _ => False

def Frame.Reads (name : Text) : Frame → Prop
  | .rest (n :: _) => n.Reads name
  | _ => False

namespace Interpreter

/-- What a relation has to be for two runs to go on side by side. -/
structure Lockstep (R : Interpreter → Interpreter → Prop) (excused : Stop → Prop) : Prop where
  log (line line' : Text) {s t : Interpreter} (related : R s t) : R (s.log line) (t.log line')
  push (e : Entity) : Respects R excused (onBench (Bench.push e))
  literal (text : Text) : Respects R excused (onBench (literal text))
  execute (kind : Kind) : Respects R excused (onBench (Bench.execute kind))
  popNumber (op : Text) : Respects R excused (onBench (Bench.popNumber op))
  pop (op : Text) : Respects R excused (onBench (pop op))
  find (name : Text) : Respects R excused (find name)
  bind (name : Text) (b : Binding) : Respects R excused (bind name b)
  enterWord (name : Text) (body : List Node) : Respects R excused (enterWord name body)
  enterLoop (limit start : Int32) : Respects R excused (onMachine (Machine.enterLoop limit start))
  loopIndex (depth : Int) : Respects R excused (onMachine (Machine.loopIndex depth))
  round (body : List Node) : Respects R excused (round body)
  stepLoop {s t : Interpreter} (related : R s t) :
    R { s with machine := s.machine.stepLoop } { t with machine := t.machine.stepLoop }
  abandon (frame : Frame) {s t : Interpreter} (related : R s t) : R (s.abandon frame) (t.abandon frame)

/-- As much of it as a node needs that looks up none but `readable` names. -/
structure Nodewise (R : Interpreter → Interpreter → Prop) (excused : Stop → Prop)
    (readable : Text → Prop) : Prop where
  announce (n : Node) {s t : Interpreter} (related : R s t) : R (s.announce n) (t.announce n)
  push (e : Entity) : Respects R excused (onBench (Bench.push e))
  literal (text : Text) : Respects R excused (onBench (literal text))
  execute (kind : Kind) : Respects R excused (onBench (Bench.execute kind))
  popNumber (op : Text) : Respects R excused (onBench (Bench.popNumber op))
  pop (op : Text) : Respects R excused (onBench (pop op))
  find {name : Text} (may : readable name) : Respects R excused (find name)
  bind (name : Text) (b : Binding) : Respects R excused (bind name b)
  enterWord (name : Text) (body : List Node) : Respects R excused (enterWord name body)
  enterLoop (limit start : Int32) : Respects R excused (onMachine (Machine.enterLoop limit start))
  loopIndex (depth : Int) : Respects R excused (onMachine (Machine.loopIndex depth))
  round (body : List Node) : Respects R excused (round body)
  stepLoop {s t : Interpreter} (related : R s t) :
    R { s with machine := s.machine.stepLoop } { t with machine := t.machine.stepLoop }

theorem trace_eq_log (s : Interpreter) (n : Node) : s.trace n = s.log (s.execLine n) := by
  unfold trace
  split
  · rfl
  · rename_i off
    exact (log_off (Option.not_isSome_iff_eq_none.1 off) _).symm

theorem words_log (s : Interpreter) (line : Text) : (s.log line).words = s.words := by
  unfold log
  split <;> rfl

theorem words_announce (s : Interpreter) (n : Node) : (s.announce n).words = s.words := by
  cases n with
  | block | hole => rfl
  | define => exact words_log s _
  | _ =>
    simp only [announce, trace_eq_log]
    exact words_log s _

section

variable {R : Interpreter → Interpreter → Prop} {excused : Stop → Prop} {readable : Text → Prop}

namespace Nodewise

theorem perform (nodewise : Nodewise R excused readable) {n : Node}
    (reads : ∀ name, n.Reads name → readable name) : Respects R excused (perform n) := by
  cases n with
  | number value => exact (nodewise.push _).bind fun _ => respects_pure []
  | string text => exact (nodewise.literal text).bind fun _ => respects_pure []
  | op kind => exact (nodewise.execute kind).bind fun _ => respects_pure []
  | block body => exact respects_pure _
  | call name =>
    refine (nodewise.find (reads name rfl)).bind fun b => ?_
    cases b with
    | «variable» value => exact (nodewise.push value).bind fun _ => respects_pure []
    | word body => exact nodewise.enterWord name body
  | define name body => exact (nodewise.bind name _).bind fun _ => respects_pure []
  | branch yes no => exact (nodewise.popNumber _).bind fun _ => respects_pure _
  | loop body =>
    refine (nodewise.popNumber _).bind fun start => (nodewise.popNumber _).bind fun limit => ?_
    exact (nodewise.enterLoop limit start).bind fun _ => nodewise.round body
  | index depth =>
    refine (nodewise.loopIndex depth).bind fun index => ?_
    exact (nodewise.push _).bind fun _ => respects_pure []
  | set name =>
    refine (nodewise.pop _).bind fun value => ?_
    exact (nodewise.bind name _).bind fun _ => respects_pure []
  | get name =>
    refine (nodewise.find (reads name rfl)).bind fun b => ?_
    cases b with
    | «variable» value => exact (nodewise.push value).bind fun _ => respects_pure []
    | word body => exact respects_throw _
  | hole => exact respects_throw _

theorem resume (nodewise : Nodewise R excused readable) {frame : Frame}
    (reads : ∀ name, frame.Reads name → readable name) {s t : Interpreter} (related : R s t)
    (left : R (s.abandon frame) (t.abandon frame)) :
    Agree R excused (resume frame s) (resume frame t) := by
  cases frame with
  | rest nodes =>
    cases nodes with
    | nil => exact .ok related
    | cons n ns =>
      have visited : Respects R excused (visit n) :=
        fun s t related => nodewise.perform reads _ _ (nodewise.announce n related)
      exact visited.bind (fun inner => respects_pure _) s t related
  | leave => exact .ok left
  | again body => exact nodewise.round body _ _ (nodewise.stepLoop related)

end Nodewise

structure Invariant (I : List Frame → Interpreter → Prop) : Prop where
  resume {frame : Frame} {inner waiting : List Frame} {s t : Interpreter}
    (holds : I (frame :: waiting) s) (resumed : Interpreter.resume frame s = .ok inner t) :
    I (inner ++ waiting) t
  stop {frame : Frame} {waiting : List Frame} {s t : Interpreter} {why : Stop}
    (holds : I (frame :: waiting) s) (stopped : Interpreter.resume frame s = .error why t) :
    I waiting t
  abandon {frame : Frame} {waiting : List Frame} {s : Interpreter}
    (holds : I (frame :: waiting) s) : I waiting (s.abandon frame)

namespace Invariant

variable {I : List Frame → Interpreter → Prop}

theorem trivial : Invariant fun _ _ => True := ⟨fun _ _ => ⟨⟩, fun _ _ => ⟨⟩, fun _ => ⟨⟩⟩

theorem abandonAll (invariant : Invariant I) {frames : List Frame} {s : Interpreter}
    (holds : I frames s) : I [] (frames.foldl Interpreter.abandon s) := by
  induction frames generalizing s with
  | nil => exact holds
  | cons frame frames ih => exact ih (invariant.abandon holds)

theorem run (invariant : Invariant I) {frames : List Frame} {s : Interpreter}
    (holds : I frames s) : I [] (Interpreter.run frames s).2 := by
  refine run_ensures (P := I) (Q := fun _ t => I [] t) ?_ ?_ frames s holds
  · intro frames s later t holds stepped
    obtain ⟨frame, waiting, inner, rfl, resumed, rfl⟩ := step_more stepped
    exact invariant.resume holds resumed
  · intro frames s stop t holds stepped
    rcases step_ended stepped with ⟨rfl, -, rfl⟩ | ⟨frame, waiting, why, u, rfl, stopped, -, rfl⟩
    · exact holds
    · exact invariant.abandonAll (invariant.stop holds stopped)

end Invariant

/-- Runs over the same frames, under the invariant `I` of the first and `J` of the second. -/
structure Abreast (I J : List Frame → Interpreter → Prop) (R : Interpreter → Interpreter → Prop)
    (excused : Stop → Prop) (readable : Text → Prop) : Prop where
  first : Invariant I
  second : Invariant J
  nodewise : Nodewise R excused readable
  reads {frame : Frame} {waiting : List Frame} {s : Interpreter} {name : Text}
    (holds : I (frame :: waiting) s) (read : frame.Reads name) : readable name
  abandon {frame : Frame} {waiting : List Frame} {s t : Interpreter}
    (here : I (frame :: waiting) s) (there : J (frame :: waiting) t) (related : R s t) :
    R (s.abandon frame) (t.abandon frame)

inductive Parts (R : Interpreter → Interpreter → Prop) (excused : Stop → Prop)
    (frames : List Frame) (s t : Interpreter) : Prop
  | intro {stop : Stop} {frame : Frame} {waiting : List Frame} {u v w : Interpreter}
    (ran : Interpreter.run frames s = (some stop, waiting.foldl Interpreter.abandon w))
    (excuse : excused stop) (stopped : Interpreter.resume frame u = .error stop w)
    (reached : Reaches frames t (frame :: waiting) v) (related : R u v)

namespace Abreast

variable {I J : List Frame → Interpreter → Prop}

theorem abandonAll (abreast : Abreast I J R excused readable) {frames : List Frame}
    {s t : Interpreter} (here : I frames s) (there : J frames t) (related : R s t) :
    R (frames.foldl Interpreter.abandon s) (frames.foldl Interpreter.abandon t) := by
  induction frames generalizing s t with
  | nil => exact related
  | cons frame frames ih =>
    exact ih (abreast.first.abandon here) (abreast.second.abandon there)
      (abreast.abandon here there related)

/-- The runs end alike, unless they part before. -/
theorem run (abreast : Abreast I J R excused readable) (frames : List Frame) {s t : Interpreter}
    (here : I frames s) (there : J frames t) (related : R s t) :
    Parts R excused frames s t ∨
      (run frames t).1 = (run frames s).1 ∧ R (run frames s).2 (run frames t).2 := by
  -- the induction is on the first run; the frames of the second are the same at every step
  fun_induction Interpreter.run frames s generalizing t with
  | case1 frames s stop u stepped =>
    rcases step_ended stepped with ⟨rfl, rfl, rfl⟩ | ⟨frame, waiting, why, v, rfl, stopped, rfl, rfl⟩
    · have ended : step [] t = .ended none t := rfl
      rw [run_of_ended ended]
      exact .inr ⟨rfl, related⟩
    · have agree := abreast.nodewise.resume (fun _ => abreast.reads here) related
        (abreast.abandon here there related)
      rw [stopped] at agree
      generalize resumed : Interpreter.resume frame t = result at agree
      cases agree with
      | @error _ _ w after =>
        have also : step (frame :: waiting) t =
            .ended (some why) (waiting.foldl Interpreter.abandon w) := by
          simp only [step, resumed]
        rw [run_of_ended also]
        exact .inr ⟨rfl, abreast.abandonAll (abreast.first.stop here stopped)
          (abreast.second.stop there resumed) after⟩
      | excused excuse => exact .inl (.intro (run_of_ended stepped) excuse stopped .start related)
  | case2 frames s later u stepped ih =>
    obtain ⟨frame, waiting, inner, rfl, done, rfl⟩ := step_more stepped
    have agree := abreast.nodewise.resume (fun _ => abreast.reads here) related
      (abreast.abandon here there related)
    rw [done] at agree
    generalize resumed : Interpreter.resume frame t = result at agree
    cases agree with
    | @ok _ _ v after =>
      have also : step (frame :: waiting) t = .more (inner ++ waiting) v := by
        simp only [step, resumed]
      rw [run_of_more also]
      refine (ih (abreast.first.resume here done) (abreast.second.resume there resumed) after).imp ?_ id
      rintro ⟨ran, excuse, stopped, reached, apart⟩
      exact .intro ((run_of_more stepped).trans ran) excuse stopped (.head also reached) apart

end Abreast

theorem runNode_alike (log : ∀ (line : Text) {s t : Interpreter}, R s t → R (s.log line) (t.log line))
    {n m : Node} {s t : Interpreter}
    (alike : (run [.rest [m]] t).1 = (run [.rest [n]] s).1 ∧
      R (run [.rest [n]] s).2 (run [.rest [m]] t).2) :
    (t.runNode m).1 = (s.runNode n).1 ∧ R (s.runNode n).2 (t.runNode m).2 := by
  unfold runNode
  generalize run [.rest [n]] s = here at alike ⊢
  generalize run [.rest [m]] t = there at alike ⊢
  obtain ⟨stop, s'⟩ := here
  obtain ⟨other, t'⟩ := there
  obtain ⟨rfl, related⟩ := alike
  match other with
  | none | some .broken => exact ⟨rfl, related⟩
  | some (.fault f) => exact ⟨rfl, log _ related⟩

end

namespace Lockstep

variable {R : Interpreter → Interpreter → Prop} {excused : Stop → Prop}

theorem announce (lock : Lockstep R excused) (n : Node) {s t : Interpreter} (related : R s t) :
    R (s.announce n) (t.announce n) := by
  cases n with
  | block | hole => exact related
  | define => exact lock.log _ _ related
  | _ =>
    simp only [Interpreter.announce, trace_eq_log]
    exact lock.log _ _ related

theorem nodewise (lock : Lockstep R excused) : Nodewise R excused fun _ => True where
  announce := lock.announce
  push := lock.push
  literal := lock.literal
  execute := lock.execute
  popNumber := lock.popNumber
  pop := lock.pop
  find _ := lock.find _
  bind := lock.bind
  enterWord := lock.enterWord
  enterLoop := lock.enterLoop
  loopIndex := lock.loopIndex
  round := lock.round
  stepLoop := lock.stepLoop

theorem abreast (lock : Lockstep R excused) :
    Abreast (fun _ _ => True) (fun _ _ => True) R excused fun _ => True where
  first := .trivial
  second := .trivial
  nodewise := lock.nodewise
  reads _ _ := trivial
  abandon _ _ related := lock.abandon _ related

/-- Runs over the same frames from related states end alike. -/
theorem run (lock : Lockstep R excused) (frames : List Frame) {s t : Interpreter} (related : R s t) :
    (∃ stop, (run frames s).1 = some stop ∧ excused stop) ∨
      (run frames t).1 = (run frames s).1 ∧ R (run frames s).2 (run frames t).2 := by
  refine (lock.abreast.run frames trivial trivial related).imp ?_ id
  rintro ⟨ran, excuse, -, -, -⟩
  exact ⟨_, congrArg Prod.fst ran, excuse⟩

theorem runNode (lock : Lockstep R excused) (n : Node) {s t : Interpreter} (related : R s t) :
    (∃ stop, (s.runNode n).1 = some stop ∧ excused stop) ∨
      (t.runNode n).1 = (s.runNode n).1 ∧ R (s.runNode n).2 (t.runNode n).2 := by
  refine (lock.run [.rest [n]] related).imp ?_ (runNode_alike fun _ _ _ related => lock.log _ _ related)
  rintro ⟨stop, stopped, excuse⟩
  exact ⟨stop, (runNode_stop s n).trans stopped, excuse⟩

end Lockstep

/-- Related states have the same machine, and stay related whatever becomes of it. -/
structure SameMachine (R : Interpreter → Interpreter → Prop) : Prop where
  machine {s t : Interpreter} (related : R s t) : t.machine = s.machine
  tracing {s t : Interpreter} (related : R s t) : t.tracing = s.tracing
  set {s t : Interpreter} (related : R s t) (machine : Machine) :
    R { s with machine } { t with machine }

namespace SameMachine

variable {R : Interpreter → Interpreter → Prop} {excused : Stop → Prop} {readable : Text → Prop}

theorem log (same : SameMachine R) (line : Text) {s t : Interpreter} (related : R s t) :
    R (s.log line) (t.log line) := by
  have tracing := same.tracing related
  cases on : s.tracing with
  | some logger =>
    rw [log_on on, log_on (tracing.trans on), same.machine related]
    exact same.set related _
  | none =>
    rw [log_off on, log_off (tracing.trans on)]
    exact related

theorem announce (same : SameMachine R) (n : Node) {s t : Interpreter} (related : R s t) :
    R (s.announce n) (t.announce n) := by
  have traced : R (s.trace n) (t.trace n) := by
    have line : t.execLine n = s.execLine n := by
      unfold execLine
      rw [same.machine related]
    rw [trace_eq_log, trace_eq_log, line]
    exact same.log _ related
  cases n with
  | block | hole => exact related
  | define => exact same.log _ related
  | _ => exact traced

theorem onMachine {α : Type} (same : SameMachine R) (act : Machine.Action α) :
    Respects R excused (onMachine act) := by
  intro s t related
  unfold Interpreter.onMachine
  rw [same.machine related]
  cases act s.machine with
  | ok a machine => exact .ok (same.set related machine)
  | error stop machine => exact .error (same.set related machine)

theorem round (same : SameMachine R) (body : List Node) : Respects R excused (round body) := by
  intro s t related
  unfold Interpreter.round
  rw [same.machine related]
  split
  · exact .ok (same.set related _)
  · exact .ok related

theorem stepLoop (same : SameMachine R) {s t : Interpreter} (related : R s t) :
    R { s with machine := s.machine.stepLoop } { t with machine := t.machine.stepLoop } := by
  rw [same.machine related]
  exact same.set related _

theorem nodewise (same : SameMachine R)
    (find : ∀ name, readable name → Respects R excused (find name))
    (bind : ∀ name b, Respects R excused (bind name b))
    (enterWord : ∀ name body, Respects R excused (enterWord name body)) :
    Nodewise R excused readable where
  announce := same.announce
  push _ := same.onMachine _
  literal _ := same.onMachine _
  execute _ := same.onMachine _
  popNumber _ := same.onMachine _
  pop _ := same.onMachine _
  find := find _
  bind := bind
  enterWord := enterWord
  enterLoop _ _ := same.onMachine _
  loopIndex _ := same.onMachine _
  round := same.round
  stepLoop := same.stepLoop

end SameMachine
end Interpreter
end StackLang
