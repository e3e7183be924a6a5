import StackLang.Proofs.Interpreter.Below
import StackLang.Proofs.Interpreter.Control
import StackLang.Proofs.Interpreter.Sequence

/-! How deep calls nest. A run that gets by with the calls it is allowed does the same where more
are allowed, so a word stands for its body. A chain of words takes one call for each link. -/
namespace StackLang

def Stop.IsCallDepth : Stop → Prop
  | .fault f => f.trouble.cause = .callDepth
  | .broken => False

namespace Interpreter

/-- The second state is the first one, with at least as much room for calls. -/
structure Roomier (s t : Interpreter) : Prop where
  machine : t.machine = s.machine
  words : t.words = s.words
  tracing : t.tracing = s.tracing
  room : s.callLimit + t.depth ≤ t.callLimit + s.depth

namespace Roomier

theorem sameMachine : SameMachine Roomier where
  machine related := related.machine
  tracing related := related.tracing
  set related _ := ⟨rfl, related.words, related.tracing, related.room⟩

theorem find (name : Text) : Respects Roomier Stop.IsCallDepth (find name) := by
  intro s t related
  unfold Interpreter.find
  rw [related.words]
  cases s.words.find? name with
  | some b => exact .ok related
  | none => exact .error related

theorem bind (name : Text) (b : Binding) : Respects Roomier Stop.IsCallDepth (bind name b) := by
  intro s t related
  exact .ok ⟨related.machine, congrArg (·.set name b) related.words, related.tracing, related.room⟩

theorem enterWord (name : Text) (body : List Node) :
    Respects Roomier Stop.IsCallDepth (enterWord name body) := by
  intro s t related
  have room := related.room
  unfold Interpreter.enterWord
  by_cases full : s.callLimit ≤ s.depth
  · rw [if_pos full]
    exact .excused rfl
  · have free : ¬ t.callLimit ≤ t.depth := by omega
    rw [if_neg full, if_neg free]
    refine .ok ⟨related.machine, related.words, related.tracing, ?_⟩
    change s.callLimit + (t.depth + 1) ≤ t.callLimit + (s.depth + 1)
    omega

/-- A word is only left where it was entered, in either run; otherwise the count of calls could stay
at zero in one of them. -/
theorem leave {s t : Interpreter} (related : Roomier s t) (here : 0 < s.depth)
    (there : 0 < t.depth) : Roomier (s.abandon .leave) (t.abandon .leave) := by
  have room := related.room
  refine ⟨related.machine, related.words, related.tracing, ?_⟩
  change s.callLimit + (t.depth - 1) ≤ t.callLimit + (s.depth - 1)
  omega

end Roomier

theorem invariant_held (s : Interpreter) : Invariant (Held s) where
  resume held resumed := held.resume resumed
  stop held stopped := held.2.same (resume_stops stopped)
  abandon held := held.2

theorem abreast_roomier (s t : Interpreter) :
    Abreast (Held s) (Held t) Roomier Stop.IsCallDepth fun _ => True where
  first := invariant_held s
  second := invariant_held t
  nodewise := Roomier.sameMachine.nodewise (fun name _ => Roomier.find name) Roomier.bind
    Roomier.enterWord
  reads _ _ := trivial
  abandon {frame _ _ _} here there related := by
    cases frame with
    | rest => exact related
    | leave => exact related.leave here.1 there.1
    | again =>
      have left : Machine.exitLoop _ = Machine.exitLoop _ := congrArg _ related.machine
      exact ⟨left, related.words, related.tracing, related.room⟩

theorem run_roomier {s t : Interpreter} (related : Roomier s t) (body : List Node)
    (enough : ∀ stop, (run [.rest body] s).1 = some stop → ¬ stop.IsCallDepth) :
    (run [.rest body] t).1 = (run [.rest body] s).1 ∧
      Roomier (run [.rest body] s).2 (run [.rest body] t).2 := by
  have start (u : Interpreter) : Held u [.rest body] u := ⟨trivial, .refl u⟩
  rcases (abreast_roomier s t).run [.rest body] (start s) (start t) related with parted | alike
  · obtain ⟨ran, excuse, -, -, -⟩ := parted
    exact absurd excuse (enough _ (congrArg Prod.fst ran))
  · exact alike

def entered (s : Interpreter) (name : Text) : Interpreter :=
  { s.announce (.call name) with depth := s.depth + 1 }

theorem visit_call {s : Interpreter} {name : Text} {body : List Node}
    (found : s.words.find? name = some (.word body)) :
    visit (.call name) s = if s.callLimit ≤ s.depth then
      .error (.fault ⟨name, .tooManyCalls s.callLimit⟩) (s.announce (.call name))
    else .ok [.rest body, .leave] (s.entered name) := by
  have words := words_announce s (.call name)
  have same := SameControl.announce s (.call name)
  change EStateM.bind (find name) _ (s.announce (.call name)) = _
  simp only [EStateM.bind, find, words, found, enterWord, same.callLimit, same.depth, entered]
  rfl

theorem run_call_full {s : Interpreter} {name : Text} {body : List Node}
    (found : s.words.find? name = some (.word body)) (full : s.callLimit ≤ s.depth) :
    (run [.rest [.call name]] s).1 = some (.fault ⟨name, .tooManyCalls s.callLimit⟩) := by
  have visited := visit_call found
  rw [if_pos full] at visited
  have stepped : step [.rest [.call name]] s =
      .ended (some (.fault ⟨name, .tooManyCalls s.callLimit⟩)) (s.announce (.call name)) := by
    simp only [step, resume_rest, visited, List.foldl_nil]
  exact congrArg Prod.fst (run_of_ended stepped)

theorem run_call {s : Interpreter} {name : Text} {body : List Node}
    (found : s.words.find? name = some (.word body)) (room : s.depth < s.callLimit) :
    run [.rest [.call name]] s = ((run [.rest body] (s.entered name)).1,
      (run [.rest body] (s.entered name)).2.abandon .leave) := by
  have visited := visit_call found
  rw [if_neg (Nat.not_le_of_gt room)] at visited
  have stepped : step [.rest [.call name]] s =
      .more ([.rest body] ++ [.leave, .rest []]) (s.entered name) := by
    simp only [step, resume_rest, visited]
    rfl
  rw [run_of_more stepped, run_append]
  obtain ⟨stop, t⟩ := run [.rest body] (s.entered name)
  cases stop with
  | none => exact (run_of_more rfl).trans (run_rest_nil _)
  | some stop => rfl

theorem run_inPlace {s : Interpreter} {name : Text} {body : List Node}
    (found : s.words.find? name = some (.word body))
    (enough : ∀ stop, (run [.rest [.call name]] s).1 = some stop → ¬ stop.IsCallDepth) :
    (run [.rest [.block body]] s).1 = (run [.rest [.call name]] s).1 ∧
      Above Output.SameCalls [] (run [.rest [.call name]] s).2 (run [.rest [.block body]] s).2 := by
  have room : s.depth < s.callLimit := by
    apply Nat.lt_of_not_le
    intro full
    exact enough _ (run_call_full found full) rfl
  have called := run_call found room
  have here := run_sameControl (.call name) s
  have there := run_sameControl (.block body) s
  rw [called] at enough here ⊢
  rw [run_block] at there ⊢
  -- without the line for the call, the body begins in `s`, one call higher up
  let announced := s.announce (.call name)
  have same := SameControl.announce s (.call name)
  have roomier : Roomier (s.entered name) announced := by
    refine ⟨rfl, rfl, rfl, ?_⟩
    change announced.callLimit + announced.depth ≤ announced.callLimit + (s.depth + 1)
    have depth : announced.depth = s.depth := same.depth
    omega
  obtain ⟨stops, body_same⟩ := run_roomier roomier body enough
  have steady : Output.Steady Output.SameCalls :=
    Output.steady_paired (Console.steady_alike fun _ => rfl)
  have start : Above Output.SameCalls [] announced s := by
    have refl : Above Output.SameCalls [] s s :=
      ⟨⟨(List.append_nil _).symm, rfl, rfl, .refl _ _⟩, rfl, rfl, rfl, rfl⟩
    simp only [announced, announce, trace_eq_log]
    exact refl.log_left steady.trace _
  rcases (Above.lockstep steady).run [.rest body] start with ⟨_, _, more, _⟩ | ⟨stops', above⟩
  · exact absurd rfl more
  refine ⟨stops'.trans stops, ?_, ?_, above.words.trans body_same.words, ?_, ?_⟩
  · have bench := above.bench
    rw [body_same.machine] at bench
    exact bench
  · exact there.loops.trans here.loops.symm
  · exact there.depth.trans here.depth.symm
  · exact there.limit.trans here.limit.symm

/-- Words of which each but the last just calls the next, and the last does nothing. -/
inductive Chain (words : Dictionary) : Text → Nat → Prop
  | last {name : Text} (found : words.find? name = some (.word [])) : Chain words name 1
  | next {name other : Text} {k : Nat} (found : words.find? name = some (.word [.call other]))
    (rest : Chain words other k) : Chain words name (k + 1)

theorem Chain.more {words more : Dictionary} {name : Text} {k : Nat} (chain : Chain words name k)
    (kept : ∀ other b, words.find? other = some b → more.find? other = some b) :
    Chain more name k := by
  induction chain with
  | last found => exact .last (kept _ _ found)
  | next found _ ih => exact .next (kept _ _ found) ih

theorem exists_chain (k : Nat) : ∃ words name, name.length = k + 1 ∧ Chain words name (k + 1) ∧
    ∀ other, k + 1 < other.length → words.find? other = none := by
  induction k with
  | zero =>
    refine ⟨[([97], .word [])], [97], rfl, .last rfl, fun other long => ?_⟩
    apply if_neg
    rintro rfl
    simp at long
  | succ k ih =>
    obtain ⟨words, name, length, chain, fresh⟩ := ih
    refine ⟨words.set (97 :: name) (.word [.call name]), 97 :: name, by simp [length], ?_, ?_⟩
    · refine .next ?_ (chain.more fun other b found => ?_)
      · rw [Dictionary.find?_set, if_pos rfl]
      · rw [Dictionary.find?_set, if_neg, found]
        rintro rfl
        rw [fresh _ (by simp [length])] at found
        cases found
    · intro other long
      rw [Dictionary.find?_set, if_neg, fresh other (by omega)]
      rintro rfl
      simp only [List.length_cons, length] at long
      omega

theorem run_chain {words : Dictionary} {name : Text} {k : Nat} (chain : Chain words name k)
    {s : Interpreter} (same : s.words = words) :
    (s.depth + k ≤ s.callLimit → (run [.rest [.call name]] s).1 = none) ∧
      (s.callLimit < s.depth + k →
        ∃ stop, (run [.rest [.call name]] s).1 = some stop ∧ stop.IsCallDepth) := by
  induction chain generalizing s with
  | @last name found =>
    rw [← same] at found
    constructor
    · intro room
      rw [run_call found (by omega), run_rest_nil]
    · intro full
      exact ⟨_, run_call_full found (by omega), rfl⟩
  | @next name other k found rest ih =>
    rw [← same] at found
    have announced := SameControl.announce s (.call name)
    have limit : (s.entered name).callLimit = s.callLimit := announced.callLimit
    have depth : (s.entered name).depth = s.depth + 1 := rfl
    have words : (s.entered name).words = words := (words_announce s _).trans same
    obtain ⟨ends, stops⟩ := ih words
    rw [limit, depth] at ends stops
    constructor
    · intro room
      rw [run_call found (by omega)]
      exact ends (by omega)
    · intro full
      by_cases room : s.depth < s.callLimit
      · rw [run_call found room]
        exact stops (by omega)
      · exact ⟨_, run_call_full found (by omega), rfl⟩

theorem callLimit_eq (s : Interpreter) :
    s.callLimit = if s.maxCallDepth ≤ 0 then 10000
      else if 100000 < s.maxCallDepth then 100000 else s.maxCallDepth.toNat := by
  unfold callLimit
  split
  · rfl
  · split <;> omega

/-- A run that is not stopped for too many calls ends the same with any room for calls that is no
smaller, and a word does what its body does. A chain of words can be called if it is no longer than
the limit, and is stopped for too many calls if it is longer. -/
theorem call_depth_only_stops :
    (∀ (n : Node) (s : Interpreter) (depth : Nat) (limit : Int),
      (∀ stop, (s.runNode n).1 = some stop → ¬ stop.IsCallDepth) →
      let t := { s with depth, maxCallDepth := limit }
      (s.callLimit : Int) - s.depth ≤ (t.callLimit : Int) - t.depth →
        (t.runNode n).1 = (s.runNode n).1 ∧ (t.runNode n).2.machine = (s.runNode n).2.machine ∧
          (t.runNode n).2.words = (s.runNode n).2.words) ∧
    (∀ (s : Interpreter) (name : Text) (body : List Node),
      s.words.find? name = some (.word body) →
      (∀ stop, (s.runNode (.call name)).1 = some stop → ¬ stop.IsCallDepth) →
        (s.runNode (.block body)).1 = (s.runNode (.call name)).1 ∧
          Above Output.SameCalls [] (s.runNode (.call name)).2 (s.runNode (.block body)).2) ∧
    (∀ k, 1 ≤ k → ∃ words name, Chain words name k) ∧
    (∀ (s : Interpreter) (name : Text) (k : Nat), s.depth = 0 → Chain s.words name k →
      ((s.runNode (.call name)).1 = none ↔ k ≤ s.callLimit) ∧
        (s.callLimit < k → ∃ stop, (s.runNode (.call name)).1 = some stop ∧ stop.IsCallDepth)) ∧
    ∀ s : Interpreter, s.callLimit = if s.maxCallDepth ≤ 0 then 10000
      else if 100000 < s.maxCallDepth then 100000 else s.maxCallDepth.toNat := by
  refine ⟨?_, ?_, ?_, ?_, callLimit_eq⟩
  · intro n s depth limit enough t room
    rw [runNode_stop] at enough
    have related : Roomier s t := ⟨rfl, rfl, rfl, by omega⟩
    obtain ⟨stops, after⟩ :=
      runNode_alike Roomier.sameMachine.log (run_roomier related [n] enough)
    exact ⟨stops, after.machine, after.words⟩
  · intro s name body found enough
    rw [runNode_stop] at enough
    have steady : Output.Steady Output.SameCalls :=
      Output.steady_paired (Console.steady_alike fun _ => rfl)
    exact runNode_alike (fun line _ _ above => above.log steady.trace line line)
      (run_inPlace found enough)
  · intro k positive
    obtain ⟨words, name, -, chain, -⟩ := exists_chain (k - 1)
    rw [Nat.sub_add_cancel positive] at chain
    exact ⟨words, name, chain⟩
  · intro s name k atTop chain
    obtain ⟨ends, stops⟩ := run_chain chain rfl
    rw [← runNode_stop, atTop, Nat.zero_add] at ends stops
    refine ⟨⟨fun ended => ?_, ends⟩, stops⟩
    apply Nat.le_of_not_lt
    intro full
    obtain ⟨stop, stopped, -⟩ := stops full
    rw [ended] at stopped
    cases stopped

def linked (limit : Int) : Interpreter :=
  { words := [(utf8 "a", .word [.call (utf8 "b")]), (utf8 "b", .word [])], maxCallDepth := limit }

/-- Two links are too many for a limit of one, and not for a limit of two; then they may as well be
called three calls further down under a limit of seven. -/
theorem call_depth_only_stops_linked :
    (∃ stop, ((linked 1).runNode (.call (utf8 "a"))).1 = some stop ∧ stop.IsCallDepth) ∧
    ((linked 2).runNode (.call (utf8 "a"))).1 = none ∧
    ((linked 2).runNode (.block [.call (utf8 "b")])).1 = none ∧
    ({ linked 2 with depth := 3, maxCallDepth := 7 }.runNode (.call (utf8 "a"))).1 = none := by
  obtain ⟨more, inPlace, -, chains, -⟩ := call_depth_only_stops
  have chain (limit : Int) : Chain (linked limit).words (utf8 "a") 2 := .next rfl (.last rfl)
  obtain ⟨-, stops⟩ := chains (linked 1) _ _ rfl (chain 1)
  obtain ⟨ends, -⟩ := chains (linked 2) _ _ rfl (chain 2)
  have ended := ends.2 (by decide)
  have enough : ∀ stop, ((linked 2).runNode (.call (utf8 "a"))).1 = some stop →
      ¬ stop.IsCallDepth := by
    intro stop stopped
    rw [ended] at stopped
    cases stopped
  refine ⟨stops (by decide), ended, ?_, ?_⟩
  · exact (inPlace (linked 2) _ _ rfl enough).1.trans ended
  · exact (more _ (linked 2) 3 7 enough (by decide)).1.trans ended

end Interpreter
end StackLang
