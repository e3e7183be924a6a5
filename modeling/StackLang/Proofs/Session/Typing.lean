import StackLang.Proofs.Machine.Numbers
import StackLang.Proofs.Session.Steps
import StackLang.Proofs.Tree.RoundTrip

/-! Programs cannot go wrong by type. A session that only runs sources holds numbers and printable
words, and therefore never meets a mismatch of types, a strange operation or a hole. -/
namespace StackLang

/-- A failure that is no mismatch of types, no strange operation and no breaking off. -/
structure Failure.Harmless (f : Failure) : Prop where
  typed : .typeMismatch ∉ f.causes
  known : .notOperation ∉ f.causes
  returned : f.firstAbort? = none

namespace Failure

theorem firstAbort?_ofFault (f : Fault) : (ofFault f).firstAbort? = none := by
  unfold ofFault
  cases f.trouble.detail <;> rfl

theorem harmless_ofFault {f : Fault} (harmless : (Stop.fault f).Harmless) :
    (ofFault f).Harmless := by
  have cause : (ofFault f).causes = [f.trouble.cause] := by
    unfold ofFault
    cases f.trouble.detail <;> rfl
  rw [Stop.Harmless] at harmless
  refine ⟨?_, ?_, firstAbort?_ofFault f⟩
  · rw [cause, List.mem_singleton]
    exact harmless.1.symm
  · rw [cause, List.mem_singleton]
    exact harmless.2.symm

theorem harmless_writing (e : WriteError) : (cause e.cause).Harmless := by
  cases e <;> exact ⟨nofun, nofun, rfl⟩

theorem harmless_read {src : Text} {f : Failure} (failed : Interpreter.read src = .error f) :
    f.Harmless := by
  have told (site : Site) (text : Text) : (fault site (plain text)).Harmless :=
    ⟨List.not_mem_nil, List.not_mem_nil, rfl⟩
  unfold Interpreter.read at failed
  split at failed
  · cases failed
    exact told _ _
  · split at failed
    · cases failed
      exact told _ _
    · cases failed

end Failure

def Binding.Sound : Binding → Prop
  | .word body => ∀ n ∈ body, n.Printable
  | .variable value => value.IsNumber

namespace Dictionary

theorem mem_of_find? {d : Dictionary} {name : Text} {b : Binding} (found : d.find? name = some b) :
    (name, b) ∈ d := by
  induction d with
  | nil => cases found
  | cons entry rest ih =>
    simp only [find?] at found
    split at found
    · rename_i same
      cases found
      exact same ▸ List.mem_cons_self
    · exact .tail _ (ih found)

theorem mem_set {d : Dictionary} {name : Text} {b : Binding} {entry : Text × Binding}
    (mem : entry ∈ d.set name b) : entry = (name, b) ∨ entry ∈ d := by
  induction d with
  | nil => exact .inl (List.mem_singleton.1 mem)
  | cons first rest ih =>
    simp only [set] at mem
    split at mem
    · exact (List.mem_cons.1 mem).imp id (.tail _)
    · split at mem
      · exact List.mem_cons.1 mem
      · rcases List.mem_cons.1 mem with rfl | later
        · exact .inr List.mem_cons_self
        · exact (ih later).imp id (.tail _)

end Dictionary

def Frame.Sound : Frame → Prop
  | .rest nodes | .again nodes => ∀ n ∈ nodes, n.Printable
  | .leave => True

namespace Interpreter

/-- Only numbers on the stack, and every name bound to a number or to a printable word. -/
structure WellTyped (s : Interpreter) : Prop where
  stack : s.machine.bench.Numbers
  names : ∀ entry ∈ s.words, IsName entry.1
  bindings : ∀ entry ∈ s.words, entry.2.Sound

namespace WellTyped

theorem same {s t : Interpreter} (typed : s.WellTyped) (h : SameContents s t) : t.WellTyped := by
  refine ⟨?_, h.words ▸ typed.names, h.words ▸ typed.bindings⟩
  unfold Bench.Numbers
  rw [h.stack]
  exact typed.stack

abbrev Kept {α : Type} (act : Action α) (s : Interpreter) (good : α → Prop) : Prop :=
  Ensures act s (fun a t => t.WellTyped ∧ good a) fun stop t => t.WellTyped ∧ stop.Harmless

theorem onBench {α : Type} {act : Bench.Action α} {s : Interpreter} (typed : s.WellTyped)
    (keeps : Bench.KeepsNumbers act) : Kept (Interpreter.onBench act) s fun _ => True := by
  apply ensures_onBench
  refine (keeps _ typed.stack).mono ?_ ?_
  · exact fun a bench numbers => ⟨⟨numbers, typed.names, typed.bindings⟩, trivial⟩
  · exact fun stop bench ended => ⟨⟨ended.1, typed.names, typed.bindings⟩, ended.2⟩

theorem find {name : Text} {s : Interpreter} (typed : s.WellTyped) :
    Kept (Interpreter.find name) s Binding.Sound := by
  unfold Kept Ensures Interpreter.find
  cases found : s.words.find? name with
  | none => exact ⟨typed, by simp [Stop.Harmless, Trouble.cause]⟩
  | some b => exact ⟨typed, typed.bindings _ (Dictionary.mem_of_find? found)⟩

theorem bind {name : Text} {b : Binding} {s : Interpreter} (typed : s.WellTyped)
    (isName : IsName name) (sound : b.Sound) :
    Kept (Interpreter.bind name b) s fun _ => True := by
  refine ⟨⟨typed.stack, ?_, ?_⟩, trivial⟩
  · intro entry mem
    rcases Dictionary.mem_set mem with rfl | old
    · exact isName
    · exact typed.names entry old
  · intro entry mem
    rcases Dictionary.mem_set mem with rfl | old
    · exact sound
    · exact typed.bindings entry old

theorem enterWord {name : Text} {body : List Node} {s : Interpreter} (typed : s.WellTyped)
    (printable : ∀ n ∈ body, n.Printable) :
    Kept (Interpreter.enterWord name body) s fun inner => ∀ f ∈ inner, f.Sound := by
  unfold Kept Ensures Interpreter.enterWord
  by_cases full : s.callLimit ≤ s.depth
  · rw [if_pos full]
    exact ⟨typed, by simp [Stop.Harmless, Trouble.cause]⟩
  · rw [if_neg full]
    refine ⟨⟨typed.stack, typed.names, typed.bindings⟩, ?_⟩
    exact List.forall_mem_cons.2 ⟨printable, List.forall_mem_singleton.2 trivial⟩

theorem round {body : List Node} {s : Interpreter} (typed : s.WellTyped)
    (printable : ∀ n ∈ body, n.Printable) :
    Kept (Interpreter.round body) s fun inner => ∀ f ∈ inner, f.Sound := by
  unfold Kept Ensures Interpreter.round
  by_cases done : s.machine.loopDone = true
  · rw [if_pos done]
    exact ⟨⟨typed.stack, typed.names, typed.bindings⟩, by simp⟩
  · rw [if_neg done]
    exact ⟨typed, List.forall_mem_cons.2 ⟨printable, List.forall_mem_singleton.2 printable⟩⟩

theorem push {value : Entity} {s : Interpreter} (typed : s.WellTyped) (number : value.IsNumber) :
    Kept (do Interpreter.onBench (Bench.push value); return ([] : List Frame)) s
      fun inner => ∀ f ∈ inner, f.Sound := by
  apply (typed.onBench (Bench.keeps_push number)).bind
  intro _ t pushed
  exact ⟨pushed.1, by simp⟩

theorem enterLoop {limit start : Int32} {s : Interpreter} (typed : s.WellTyped) :
    Kept (onMachine (Machine.enterLoop limit start)) s fun _ => True := by
  apply ensures_onMachine
  unfold Ensures Machine.enterLoop
  by_cases full : maxLoops ≤ s.machine.loops.length
  · rw [if_pos full]
    exact ⟨⟨typed.stack, typed.names, typed.bindings⟩, by simp [Stop.Harmless, Trouble.cause]⟩
  · rw [if_neg full]
    exact ⟨⟨typed.stack, typed.names, typed.bindings⟩, trivial⟩

theorem loopIndex {depth : Int} {s : Interpreter} (typed : s.WellTyped) :
    Kept (onMachine (Machine.loopIndex depth)) s fun _ => True := by
  apply ensures_onMachine
  unfold Ensures Machine.loopIndex
  cases if 0 ≤ depth then s.machine.loops[depth.toNat]? else none with
  | none => exact ⟨typed, by simp [Stop.Harmless, Trouble.cause]⟩
  | some l => exact ⟨typed, trivial⟩

theorem pop {op : Text} {s : Interpreter} (typed : s.WellTyped) :
    Kept (Interpreter.onBench (Interpreter.pop op)) s Entity.IsNumber := by
  apply ensures_onBench
  refine (Bench.keeps_pop op _ typed.stack).mono ?_ ?_
  · exact fun value bench popped => ⟨⟨popped.2, typed.names, typed.bindings⟩, popped.1⟩
  · exact fun stop bench ended => ⟨⟨ended.1, typed.names, typed.bindings⟩, ended.2⟩

/-- A printable node keeps the types, and what it leaves to be run is printable again. -/
theorem perform {n : Node} {s : Interpreter} (typed : s.WellTyped) (printable : n.Printable) :
    Kept (Interpreter.perform n) s fun inner => ∀ f ∈ inner, f.Sound := by
  cases printable with
  | number value => exact typed.push trivial
  | @string text unquoted =>
    apply (typed.onBench (Bench.keeps_literal text)).bind
    exact fun _ t pushed => ⟨pushed.1, by simp⟩
  | op operation =>
    apply (typed.onBench (Bench.keeps_execute operation)).bind
    exact fun _ t executed => ⟨executed.1, by simp⟩
  | call named =>
    apply typed.find.bind
    intro b t found
    cases b with
    | «variable» value => exact found.1.push found.2
    | word body => exact found.1.enterWord found.2
  | @define name body named inner =>
    have sound : (Binding.word body).Sound := inner
    apply (typed.bind named sound).bind
    exact fun _ t bound => ⟨bound.1, by simp⟩
  | @branch yes no first second =>
    apply (typed.onBench (Bench.keeps_popNumber _)).bind
    intro condition t popped
    refine ⟨popped.1, List.forall_mem_singleton.2 ?_⟩
    by_cases one : condition = 1
    · rw [if_pos one]
      exact first
    · rw [if_neg one]
      exact second
  | loop inner =>
    apply (typed.onBench (Bench.keeps_popNumber _)).bind
    intro start t first
    apply (first.1.onBench (Bench.keeps_popNumber _)).bind
    intro limit u second
    apply second.1.enterLoop.bind
    intro _ v entered
    exact entered.1.round inner
  | index least most =>
    apply typed.loopIndex.bind
    intro index t read
    exact read.1.push trivial
  | set named =>
    apply typed.pop.bind
    intro value t popped
    have sound : (Binding.variable value).Sound := popped.2
    apply (popped.1.bind named sound).bind
    exact fun _ u bound => ⟨bound.1, by simp⟩
  | @get name named =>
    apply typed.find.bind
    intro b t found
    cases b with
    | «variable» value => exact found.1.push found.2
    | word body => exact ⟨found.1, by simp [Stop.Harmless, Trouble.cause]⟩

theorem resume {frame : Frame} {s : Interpreter} (typed : s.WellTyped) (sound : frame.Sound) :
    Kept (Interpreter.resume frame) s fun inner => ∀ f ∈ inner, f.Sound := by
  cases frame with
  | rest nodes =>
    cases nodes with
    | nil => exact ⟨typed, by simp⟩
    | cons n ns =>
      obtain ⟨first, others⟩ := List.forall_mem_cons.1 sound
      have visited : Kept (visit n) s fun inner => ∀ f ∈ inner, f.Sound :=
        (typed.same (.announce s n)).perform first
      apply visited.bind
      intro inner t opened
      exact ⟨opened.1, List.forall_mem_append.2 ⟨opened.2, List.forall_mem_singleton.2 others⟩⟩
  | leave => exact ⟨⟨typed.stack, typed.names, typed.bindings⟩, by simp⟩
  | again body =>
    have stepped : WellTyped { s with machine := s.machine.stepLoop } := by
      refine ⟨?_, typed.names, typed.bindings⟩
      unfold Machine.stepLoop
      split <;> exact typed.stack
    exact stepped.round sound

theorem abandon {s : Interpreter} (typed : s.WellTyped) (frames : List Frame) :
    (frames.foldl Interpreter.abandon s).WellTyped := by
  induction frames generalizing s with
  | nil => exact typed
  | cons frame frames ih =>
    apply ih
    cases frame with
    | rest => exact typed
    | leave | again => exact ⟨typed.stack, typed.names, typed.bindings⟩

/-- A run over printable nodes keeps the types, and it stops harmlessly if it stops. -/
theorem run {frames : List Frame} {s : Interpreter} (typed : s.WellTyped)
    (sound : ∀ f ∈ frames, f.Sound) :
    (∀ stop, (run frames s).1 = some stop → stop.Harmless) ∧ (run frames s).2.WellTyped := by
  refine run_ensures (P := fun frames s => s.WellTyped ∧ ∀ f ∈ frames, f.Sound)
    (Q := fun ended s => (∀ stop, ended = some stop → stop.Harmless) ∧ s.WellTyped)
    ?_ ?_ frames s ⟨typed, sound⟩
  · rintro frames s later t ⟨typed, sound⟩ stepped
    obtain ⟨frame, waiting, inner, rfl, resumed, rfl⟩ := step_more stepped
    obtain ⟨first, others⟩ := List.forall_mem_cons.1 sound
    obtain ⟨kept, opened⟩ := (typed.resume first).ok resumed
    exact ⟨kept, List.forall_mem_append.2 ⟨opened, others⟩⟩
  · rintro frames s stop t ⟨typed, sound⟩ stepped
    rcases step_ended stepped with ⟨-, rfl, rfl⟩ | ⟨frame, waiting, why, u, rfl, resumed, rfl, rfl⟩
    · exact ⟨by simp, typed⟩
    · obtain ⟨kept, harmless⟩ := (typed.resume (sound frame List.mem_cons_self)).error resumed
      exact ⟨fun _ same => Option.some.inj same ▸ harmless, kept.abandon waiting⟩

end WellTyped

theorem read_printable {src : Text} {n : Node} (accepted : read src = .ok n) :
    ∃ nodes, n = .block nodes ∧ ∀ m ∈ nodes, m.Printable := by
  unfold read at accepted
  split at accepted
  · cases accepted
  · rename_i tokens lexed
    split at accepted
    · cases accepted
    · rename_i nodes parsed
      cases accepted
      exact ⟨nodes, rfl, parse_printable lexed parsed⟩

theorem runTree_fst (s : Interpreter) (n : Node) :
    (s.runTree n).1 = ((ending (s.runNode n).1).isolate (utf8 "stacky")).or
      ((s.runNode n).2.flush.1.map fun e => .cause e.cause) := rfl

theorem isolate_fault {f : Fault} (returned : (Failure.ofFault f).firstAbort? = none) :
    (ending (some (.fault f))).isolate (utf8 "stacky") = some (.ofFault f) := by
  simp [ending, Ending.isolate, Ending.recover, Failure.isPanic, Failure.isExit, returned]

namespace WellTyped

theorem runNode {nodes : List Node} {s : Interpreter} (typed : s.WellTyped)
    (printable : ∀ n ∈ nodes, n.Printable) :
    (∀ stop, (s.runNode (.block nodes)).1 = some stop → stop.Harmless) ∧
      (s.runNode (.block nodes)).2.WellTyped := by
  -- a whole program is a block, which is not printable, but its first step opens what is
  have opened : step [.rest [.block nodes]] s = .more [.rest nodes, .rest []] s := rfl
  have sound : ∀ f ∈ [Frame.rest nodes, .rest []], f.Sound :=
    List.forall_mem_cons.2 ⟨printable, List.forall_mem_singleton.2 (by simp [Frame.Sound])⟩
  obtain ⟨harmless, kept⟩ := typed.run sound
  rw [← run_of_more opened] at harmless kept
  unfold Interpreter.runNode
  split
  · rename_i f t ran
    rw [ran] at harmless kept
    exact ⟨harmless, kept.same (.log t _)⟩
  · exact ⟨harmless, kept⟩

theorem exec {s : Interpreter} (typed : s.WellTyped) (src : Text) :
    (∀ f, (s.exec src).1 = some f → f.Harmless) ∧ (s.exec src).2.WellTyped := by
  unfold Interpreter.exec
  split
  · rename_i failure failed
    exact ⟨fun f same => Option.some.inj same ▸ Failure.harmless_read failed,
      typed.same (.log s _)⟩
  · rename_i n accepted
    obtain ⟨nodes, rfl, printable⟩ := read_printable accepted
    obtain ⟨harmless, kept⟩ := typed.runNode printable
    refine ⟨?_, kept.same (.flush _)⟩
    intro f failed
    rw [runTree_fst] at failed
    cases stopped : (s.runNode (.block nodes)).1 with
    | none =>
      rw [stopped] at failed
      change Option.or none _ = some f at failed
      rw [Option.none_or] at failed
      obtain ⟨e, _, rfl⟩ := Option.map_eq_some_iff.1 failed
      exact Failure.harmless_writing e
    | some stop =>
      have soft := harmless stop stopped
      cases stop with
      | broken => exact soft.elim
      | fault g =>
        have told := Failure.harmless_ofFault soft
        rw [stopped, isolate_fault told.returned, Option.some_or] at failed
        exact Option.some.inj failed ▸ told

end WellTyped

/-- A session that only runs sources, however it is set up and however its runs end, holds numbers
and words that can be written down under names that can be read, and its next run is harmless. -/
theorem sources_keep_types (out : Output) (settings : List Setting) (srcs : List Text) :
    ((new out settings).after (srcs.map .exec)).WellTyped ∧
      ∀ src, ∀ f ∈ (((new out settings).after (srcs.map .exec)).exec src).1, f.Harmless := by
  have empty : WellTyped {} := ⟨by simp [Bench.Numbers], by simp, by simp⟩
  have typed : ((new out settings).after (srcs.map .exec)).WellTyped := by
    apply after_keeps ?_ (empty.same (new_empty out settings))
    intro a mem s typed
    obtain ⟨src, _, rfl⟩ := List.mem_map.1 mem
    exact (typed.exec src).2
  exact ⟨typed, fun src => (typed.exec src).1⟩

end Interpreter
end StackLang
