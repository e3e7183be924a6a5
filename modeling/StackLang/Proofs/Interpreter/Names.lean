import StackLang.Proofs.Interpreter.Lockstep

/-! The names of a run. What a run may come to execute grows as it defines words, but all of it
stood in the program or in the dictionary before. So a name that no code binds keeps its binding,
and one that no code mentions has no influence. -/
namespace StackLang

inductive Role where
  | call | get | set | define
  deriving DecidableEq, Repr

def Role.binds : Role → Bool
  | .set | .define => true
  | .call | .get => false

namespace Node

mutual

def uses : Node → List (Role × Text)
  | call name => [(.call, name)]
  | get name => [(.get, name)]
  | set name => [(.set, name)]
  | define name body => (.define, name) :: usesOfAll body
  | block body => usesOfAll body
  | branch yes no => usesOfAll yes ++ usesOfAll no
  | loop body => usesOfAll body
  | number _ | string _ | op _ | index _ | hole => []

def usesOfAll : List Node → List (Role × Text)
  | [] => []
  | n :: ns => n.uses ++ usesOfAll ns

end

def bodies : Node → List (List Node)
  | block body | loop body => [body]
  | branch yes no => [yes, no]
  | _ => []

/-- Nothing that `p` holds of is done with `x`. -/
def Spares (p : Role → Bool) (x : Text) (nodes : List Node) : Prop :=
  ∀ role, (role, x) ∈ usesOfAll nodes → p role = false

theorem spares_cons {p : Role → Bool} {x : Text} {n : Node} {ns : List Node} :
    Spares p x (n :: ns) ↔ (∀ role, (role, x) ∈ n.uses → p role = false) ∧ Spares p x ns := by
  simp only [Spares, usesOfAll, List.mem_append]
  constructor
  · intro spares
    exact ⟨fun role mem => spares role (.inl mem), fun role mem => spares role (.inr mem)⟩
  · rintro ⟨first, rest⟩ role (mem | mem)
    · exact first role mem
    · exact rest role mem

theorem uses_of_bodies {n : Node} {body : List Node} (mem : body ∈ n.bodies) {use : Role × Text}
    (used : use ∈ usesOfAll body) : use ∈ n.uses := by
  cases n with
  | block inner | loop inner =>
    rw [bodies, List.mem_singleton] at mem
    rw [uses, ← mem]
    exact used
  | branch yes no =>
    rw [uses, List.mem_append]
    simp only [bodies, List.mem_cons, List.not_mem_nil, or_false] at mem
    rcases mem with rfl | rfl
    · exact .inl used
    · exact .inr used
  | _ => cases mem

end Node

open Node (Spares usesOfAll)

def Frame.code : Frame → List Node
  | .rest nodes | .again nodes => nodes
  | .leave => []

namespace Interpreter

/-- The nodes are run for `n`: they stand in it, or it calls the word that they are the body of. -/
inductive RunFor (n : Node) (words : Dictionary) : List Node → Prop
  | nothing : RunFor n words []
  | inside {body : List Node} (mem : body ∈ n.bodies) : RunFor n words body
  | called {name : Text} {body : List Node} (call : n = .call name)
    (found : words.find? name = some (.word body)) : RunFor n words body

inductive Rebinds (words : Dictionary) : Node → Dictionary → Prop
  | same {n : Node} : Rebinds words n words
  | define {name : Text} {body : List Node} :
    Rebinds words (.define name body) (words.set name (.word body))
  | set {name : Text} {value : Entity} : Rebinds words (.set name) (words.set name (.variable value))

abbrev KeepsWords {α : Type} (act : Action α) (s : Interpreter) : Prop :=
  Ensures act s (fun _ t => t.words = s.words) fun _ t => t.words = s.words

theorem KeepsWords.since {α : Type} {act : Action α} {s : Interpreter} {words : Dictionary}
    (keeps : KeepsWords act s) (same : s.words = words) :
    Ensures act s (fun _ t => t.words = words) fun _ t => t.words = words := by
  rw [← same]
  exact keeps

theorem keepsWords_onMachine {α : Type} (act : Machine.Action α) (s : Interpreter) :
    KeepsWords (onMachine act) s := by
  apply ensures_onMachine
  unfold Ensures
  split <;> rfl

theorem ensures_find (name : Text) (s : Interpreter) :
    Ensures (find name) s (fun b t => t.words = s.words ∧ s.words.find? name = some b)
      fun _ t => t.words = s.words := by
  unfold Ensures find
  cases found : s.words.find? name with
  | some b => exact ⟨rfl, rfl⟩
  | none => rfl

/-- What becomes of the words, and what is left to be run. A stop comes before any name is bound. -/
abbrev Opening (n : Node) (words : Dictionary) (act : Action (List Frame)) (s : Interpreter) : Prop :=
  Ensures act s (fun inner t => Rebinds words n t.words ∧ ∀ f ∈ inner, RunFor n words f.code)
    fun _ t => t.words = words

theorem opening_nil {n : Node} {words : Dictionary} {s : Interpreter}
    (rebinds : Rebinds words n s.words) : Opening n words (pure []) s :=
  ⟨rebinds, fun _ mem => absurd mem List.not_mem_nil⟩

theorem opening_quiet {α : Type} {act : Action α} {n : Node} {words : Dictionary} {s : Interpreter}
    (keeps : KeepsWords act s) (same : s.words = words) :
    Opening n words (do let _ ← act; return []) s := by
  apply (keeps.since same).bind
  intro _ t kept
  exact opening_nil (kept ▸ .same)

theorem opening_enterWord {name : Text} {body : List Node} {words : Dictionary} {s : Interpreter}
    (same : s.words = words) (found : words.find? name = some (.word body)) :
    Opening (.call name) words (enterWord name body) s := by
  unfold Opening Ensures enterWord
  by_cases full : s.callLimit ≤ s.depth
  · rw [if_pos full]
    exact same
  · rw [if_neg full]
    refine ⟨same ▸ .same, ?_⟩
    exact List.forall_mem_cons.2 ⟨.called rfl found, List.forall_mem_singleton.2 .nothing⟩

theorem opening_round {body : List Node} {words : Dictionary} {s : Interpreter}
    (same : s.words = words) : Opening (.loop body) words (round body) s := by
  have inside : RunFor (.loop body) words body := .inside (List.mem_singleton.2 rfl)
  unfold Opening Ensures round
  by_cases done : s.machine.loopDone = true
  · rw [if_pos done]
    exact ⟨same ▸ .same, by simp⟩
  · rw [if_neg done]
    refine ⟨same ▸ .same, ?_⟩
    exact List.forall_mem_cons.2 ⟨inside, List.forall_mem_singleton.2 inside⟩

theorem opening_perform (n : Node) (s : Interpreter) : Opening n s.words (perform n) s := by
  cases n with
  | number value => exact opening_quiet (keepsWords_onMachine _ s) rfl
  | string text => exact opening_quiet (keepsWords_onMachine _ s) rfl
  | op kind => exact opening_quiet (keepsWords_onMachine _ s) rfl
  | block body => exact ⟨.same, List.forall_mem_singleton.2 (.inside (List.mem_singleton.2 rfl))⟩
  | call name =>
    apply (ensures_find name s).bind
    rintro b t ⟨same, found⟩
    cases b with
    | «variable» value => exact opening_quiet (keepsWords_onMachine _ t) same
    | word body => exact opening_enterWord same found
  | define name body => exact opening_nil .define
  | branch yes no =>
    apply (keepsWords_onMachine _ s).bind
    intro condition t kept
    refine ⟨kept ▸ .same, List.forall_mem_singleton.2 (.inside ?_)⟩
    by_cases one : condition = 1
    · simp only [Frame.code, if_pos one, Node.bodies, List.mem_cons, true_or]
    · simp only [Frame.code, if_neg one, Node.bodies, List.mem_cons, true_or, or_true]
  | loop body =>
    apply (keepsWords_onMachine _ s).bind
    intro start t first
    apply ((keepsWords_onMachine _ t).since first).bind
    intro limit u second
    apply ((keepsWords_onMachine _ u).since second).bind
    exact fun _ v third => opening_round third
  | index depth =>
    apply (keepsWords_onMachine _ s).bind
    exact fun index t kept => opening_quiet (keepsWords_onMachine _ t) kept
  | set name =>
    apply (keepsWords_onMachine _ s).bind
    intro value t kept
    have bound : Rebinds s.words (.set name) (t.words.set name (.variable value)) := kept ▸ .set
    exact opening_nil bound
  | get name =>
    apply (ensures_find name s).bind
    rintro b t ⟨same, found⟩
    cases b with
    | «variable» value => exact opening_quiet (keepsWords_onMachine _ t) same
    | word body => exact same
  | hole => rfl

theorem resume_node {n : Node} {ns : List Node} {s : Interpreter} :
    Ensures (resume (.rest (n :: ns))) s
      (fun inner t => Rebinds s.words n t.words ∧
        ∀ f ∈ inner, RunFor n s.words f.code ∨ f = .rest ns)
      fun _ t => t.words = s.words := by
  have visited : Opening n s.words (visit n) s := by
    rw [← words_announce s n]
    exact opening_perform n (s.announce n)
  apply visited.bind
  rintro inner t ⟨rebinds, runs⟩
  refine ⟨rebinds, fun f mem => ?_⟩
  rcases List.mem_append.1 mem with mem | mem
  · exact .inl (runs f mem)
  · exact .inr (List.mem_singleton.1 mem)

theorem resume_again {body : List Node} {s : Interpreter} :
    Ensures (resume (.again body)) s
      (fun inner t => t.words = s.words ∧ ∀ f ∈ inner, f.code = body) fun _ _ => False := by
  unfold Ensures resume round
  dsimp only
  cases s.machine.stepLoop.loopDone with
  | true => exact ⟨rfl, by simp⟩
  | false => exact ⟨rfl, List.forall_mem_cons.2 ⟨rfl, List.forall_mem_singleton.2 rfl⟩⟩

theorem words_of_stop {frame : Frame} {s t : Interpreter} {why : Stop}
    (stopped : resume frame s = .error why t) : t.words = s.words := by
  cases frame with
  | rest nodes =>
    cases nodes with
    | nil => cases stopped
    | cons n ns => exact resume_node.error stopped
  | leave => cases stopped
  | again body => exact (resume_again.error stopped).elim

theorem words_abandon (s : Interpreter) (frame : Frame) : (s.abandon frame).words = s.words := by
  cases frame <;> rfl

theorem words_runNode (s : Interpreter) (n : Node) :
    (s.runNode n).2.words = (run [.rest [n]] s).2.words := by
  unfold runNode
  split
  · rename_i f t ran
    rw [ran]
    exact words_log t _
  · rfl

/-- No code that the run may come to does with `x` what `p` holds of. Where calls are among that,
the body of `x` itself is no such code. -/
structure Clear (p : Role → Bool) (x : Text) (frames : List Frame) (s : Interpreter) : Prop where
  frames : ∀ f ∈ frames, Spares p x f.code
  words : ∀ name body, (p .call = true → name ≠ x) →
    s.words.find? name = some (.word body) → Spares p x body

namespace Clear

variable {p : Role → Bool} {x : Text} {frames : List Frame} {s t : Interpreter}

theorem runFor {n : Node} {nodes : List Node} (clear : Clear p x frames s)
    (spares : ∀ role, (role, x) ∈ n.uses → p role = false) (runs : RunFor n s.words nodes) :
    Spares p x nodes := by
  cases runs with
  | nothing => exact fun role mem => absurd mem List.not_mem_nil
  | inside mem => exact fun role used => spares role (Node.uses_of_bodies mem used)
  | called call found =>
    refine clear.words _ _ (fun calls same => ?_) found
    have spared := spares .call (by rw [call, same]; exact List.mem_singleton.2 rfl)
    rw [calls] at spared
    cases spared

theorem rebinds {n : Node} {words : Dictionary} (clear : Clear p x frames s)
    (spares : ∀ role, (role, x) ∈ n.uses → p role = false) (rebinds : Rebinds s.words n words)
    (name : Text) (body : List Node) (open' : p .call = true → name ≠ x)
    (found : words.find? name = some (.word body)) : Spares p x body := by
  cases rebinds with
  | same => exact clear.words name body open' found
  | @define other inner =>
    rw [Dictionary.find?_set] at found
    split at found
    · cases found
      exact fun role used => spares role (List.mem_cons_of_mem _ used)
    · exact clear.words name body open' found
  | @set other value =>
    rw [Dictionary.find?_set] at found
    split at found
    · cases found
    · exact clear.words name body open' found

theorem invariant (p : Role → Bool) (x : Text) : Invariant (Clear p x) where
  resume {frame inner waiting s t} clear resumed := by
    obtain ⟨first, others⟩ := List.forall_mem_cons.1 clear.frames
    cases frame with
    | rest nodes =>
      cases nodes with
      | nil =>
        cases resumed
        exact ⟨others, clear.words⟩
      | cons n ns =>
        obtain ⟨spares, rest⟩ := Node.spares_cons.1 first
        obtain ⟨rebinds, runs⟩ := resume_node.ok resumed
        refine ⟨List.forall_mem_append.2 ⟨fun f mem => ?_, others⟩, clear.rebinds spares rebinds⟩
        rcases runs f mem with runs | rfl
        · exact clear.runFor spares runs
        · exact rest
    | leave =>
      cases resumed
      exact ⟨others, clear.words⟩
    | again body =>
      obtain ⟨same, code⟩ := resume_again.ok resumed
      refine ⟨List.forall_mem_append.2 ⟨fun f mem => ?_, others⟩, same ▸ clear.words⟩
      rw [code f mem]
      exact first
  stop {frame waiting s t why} clear stopped := by
    obtain ⟨-, others⟩ := List.forall_mem_cons.1 clear.frames
    refine ⟨others, ?_⟩
    rw [words_of_stop stopped]
    exact clear.words
  abandon {frame waiting s} clear := by
    obtain ⟨-, others⟩ := List.forall_mem_cons.1 clear.frames
    refine ⟨others, ?_⟩
    rw [words_abandon]
    exact clear.words

end Clear

theorem find?_rebinds {x : Text} {n : Node} {words after : Dictionary}
    (spares : ∀ role, (role, x) ∈ n.uses → role.binds = false) (rebinds : Rebinds words n after) :
    after.find? x = words.find? x := by
  cases rebinds with
  | same => rfl
  | define =>
    rw [Dictionary.find?_set, if_neg]
    rintro rfl
    cases spares .define List.mem_cons_self
  | set =>
    rw [Dictionary.find?_set, if_neg]
    rintro rfl
    cases spares .set List.mem_cons_self

theorem invariant_binding (x : Text) (b : Option Binding) :
    Invariant fun frames s => Clear Role.binds x frames s ∧ s.words.find? x = b where
  resume {frame inner waiting s t} holds resumed := by
    obtain ⟨clear, bound⟩ := holds
    refine ⟨(Clear.invariant _ x).resume clear resumed, Eq.trans ?_ bound⟩
    cases frame with
    | rest nodes =>
      cases nodes with
      | nil =>
        cases resumed
        rfl
      | cons n ns =>
        obtain ⟨spares, -⟩ := Node.spares_cons.1 (clear.frames _ List.mem_cons_self)
        exact find?_rebinds spares (resume_node.ok resumed).1
    | leave =>
      cases resumed
      rfl
    | again body => rw [(resume_again.ok resumed).1]
  stop holds stopped :=
    ⟨(Clear.invariant _ x).stop holds.1 stopped, words_of_stop stopped ▸ holds.2⟩
  abandon holds := ⟨(Clear.invariant _ x).abandon holds.1, by rw [words_abandon]; exact holds.2⟩

/-- The same interpreter, but for what `x` is bound to. -/
structure Apart (x : Text) (s t : Interpreter) : Prop where
  machine : t.machine = s.machine
  others : ∀ name, name ≠ x → t.words.find? name = s.words.find? name
  depth : t.depth = s.depth
  limit : t.maxCallDepth = s.maxCallDepth
  tracing : t.tracing = s.tracing

namespace Apart

variable {x : Text}

theorem sameMachine : SameMachine (Apart x) where
  machine apart := apart.machine
  tracing apart := apart.tracing
  set apart _ := ⟨rfl, apart.others, apart.depth, apart.limit, apart.tracing⟩

theorem find {name : Text} (other : name ≠ x) :
    Respects (Apart x) (fun _ => False) (Interpreter.find name) := by
  intro s t apart
  unfold Interpreter.find
  rw [apart.others name other]
  cases s.words.find? name with
  | some b => exact .ok apart
  | none => exact .error apart

theorem bind (name : Text) (b : Binding) :
    Respects (Apart x) (fun _ => False) (Interpreter.bind name b) := by
  intro s t apart
  refine .ok ⟨apart.machine, fun other differs => ?_, apart.depth, apart.limit, apart.tracing⟩
  rw [Dictionary.find?_set, Dictionary.find?_set, apart.others other differs]

theorem enterWord (name : Text) (body : List Node) :
    Respects (Apart x) (fun _ => False) (Interpreter.enterWord name body) := by
  intro s t apart
  have limit : t.callLimit = s.callLimit := by simp only [callLimit, apart.limit]
  unfold Interpreter.enterWord
  rw [limit, apart.depth]
  split
  · exact .error apart
  · exact .ok ⟨apart.machine, apart.others, rfl, apart.limit, apart.tracing⟩

theorem abandon {s t : Interpreter} (apart : Apart x s t) (frame : Frame) :
    Apart x (s.abandon frame) (t.abandon frame) := by
  obtain ⟨machine, others, depth, limit, tracing⟩ := apart
  cases frame with
  | rest => exact ⟨machine, others, depth, limit, tracing⟩
  | leave => exact ⟨machine, others, congrArg (· - 1) depth, limit, tracing⟩
  | again => exact ⟨congrArg Machine.exitLoop machine, others, depth, limit, tracing⟩

theorem abreast : Abreast (Clear (fun _ => true) x) (fun _ _ => True) (Apart x) (fun _ => False)
    fun name => name ≠ x where
  first := Clear.invariant _ x
  second := .trivial
  nodewise := sameMachine.nodewise (fun _ => find) bind enterWord
  reads {frame _ _ name} clear read := by
    rintro rfl
    match frame, read with
    | .rest (.call _ :: _), rfl => cases clear.frames _ List.mem_cons_self .call List.mem_cons_self
    | .rest (.get _ :: _), rfl => cases clear.frames _ List.mem_cons_self .get List.mem_cons_self
  abandon _ _ apart := apart.abandon _

end Apart

/-- However a run ends, a name that neither its node nor any bound word sets or defines is bound as
before. If no code but its own even mentions the name, then whatever it is bound to, or if it is not
bound at all, the run is the same. -/
theorem runs_keep_to_their_names (n : Node) (s : Interpreter) (x : Text) :
    ((∀ role, (role, x) ∈ n.uses → role.binds = false) →
      (∀ name body, s.words.find? name = some (.word body) →
        ∀ role, (role, x) ∈ usesOfAll body → role.binds = false) →
      (s.runNode n).2.words.find? x = s.words.find? x) ∧
    ((∀ role, (role, x) ∉ n.uses) →
      (∀ name body, name ≠ x → s.words.find? name = some (.word body) →
        ∀ role, (role, x) ∉ usesOfAll body) →
      ∀ words, (∀ name, name ≠ x → words.find? name = s.words.find? name) →
        let t := { s with words }
        (t.runNode n).1 = (s.runNode n).1 ∧ (t.runNode n).2.machine = (s.runNode n).2.machine ∧
          ∀ name, name ≠ x →
            (t.runNode n).2.words.find? name = (s.runNode n).2.words.find? name) := by
  constructor
  · intro spared bodies
    have clear : Clear Role.binds x [.rest [n]] s := by
      refine ⟨List.forall_mem_singleton.2 (Node.spares_cons.2 ⟨spared, ?_⟩), ?_⟩
      · exact fun role mem => absurd mem List.not_mem_nil
      · exact fun name body _ found => bodies name body found
    obtain ⟨-, kept⟩ := (invariant_binding x _).run ⟨clear, rfl⟩
    rw [words_runNode]
    exact kept
  · intro spared bodies words others t
    have clear : Clear (fun _ => true) x [.rest [n]] s := by
      refine ⟨List.forall_mem_singleton.2 (Node.spares_cons.2 ⟨?_, ?_⟩), ?_⟩
      · exact fun role mem => absurd mem (spared role)
      · exact fun role mem => absurd mem List.not_mem_nil
      · exact fun name body other found role mem =>
          absurd mem (bodies name body (other rfl) found role)
    have apart : Apart x s t := ⟨rfl, others, rfl, rfl, rfl⟩
    rcases Apart.abreast.run [.rest [n]] clear trivial apart with parted | alike
    · obtain ⟨-, excuse, -, -, -⟩ := parted
      exact excuse.elim
    · obtain ⟨stops, after⟩ := runNode_alike Apart.sameMachine.log alike
      exact ⟨stops, after.machine, after.others⟩

def speaking : Interpreter :=
  { words := [(utf8 "w", .word [.number 1, .set (utf8 "y")]), (utf8 "x", .variable (.number 5))] }

/-- A program that defines and calls a word, and sets a variable, does so with `x` and without. -/
theorem runs_keep_to_their_names_without :
    let n : Node := .block [.define (utf8 "v") [.call (utf8 "w")], .call (utf8 "v")]
    let t := { speaking with words := [(utf8 "w", .word [.number 1, .set (utf8 "y")])] }
    (speaking.runNode n).2.words.find? (utf8 "x") = some (.variable (.number 5)) ∧
      (t.runNode n).1 = (speaking.runNode n).1 ∧
      (t.runNode n).2.words.find? (utf8 "y") = (speaking.runNode n).2.words.find? (utf8 "y") := by
  intro n t
  have spared : ∀ role, (role, utf8 "x") ∉ n.uses := by
    intro role
    cases role <;> decide
  have bodies : ∀ name body, speaking.words.find? name = some (.word body) →
      ∀ role, (role, utf8 "x") ∉ usesOfAll body := by
    intro name body found role
    simp only [speaking, Dictionary.find?] at found
    split at found
    · cases found
      cases role <;> decide
    · split at found <;> cases found
  have others : ∀ name, name ≠ utf8 "x" → t.words.find? name = speaking.words.find? name := by
    intro name other
    simp only [t, speaking, Dictionary.find?, if_neg other.symm]
  obtain ⟨kept, same⟩ := runs_keep_to_their_names n speaking (utf8 "x")
  obtain ⟨stops, -, after⟩ := same spared (fun name body _ found => bodies name body found) _ others
  refine ⟨?_, stops, after _ (by decide)⟩
  exact kept (fun role mem => absurd mem (spared role))
    fun name body found role mem => absurd mem (bodies name body found role)

end Interpreter
end StackLang
