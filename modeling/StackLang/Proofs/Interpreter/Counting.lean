import StackLang.Proofs.Interpreter.Control
import StackLang.Proofs.Interpreter.Sequence

/-! Counted loops. A loop runs its body once for every integer from the start up to below the limit.
Whatever the body does to the loops it takes back, so nothing in it can change how often it runs. -/
namespace StackLang

def indices (start limit : Int) : List Int :=
  (List.range (limit - start).toNat).map fun (k : Nat) => start + k

theorem mem_indices {start limit i : Int} : i ∈ indices start limit ↔ start ≤ i ∧ i < limit := by
  simp only [indices, List.mem_map, List.mem_range]
  constructor
  · rintro ⟨k, below, rfl⟩
    omega
  · rintro ⟨least, below⟩
    exact ⟨(i - start).toNat, by omega, by omega⟩

theorem indices_nil {start limit : Int} (passed : limit ≤ start) : indices start limit = [] := by
  have none : (limit - start).toNat = 0 := by omega
  rw [indices, none]
  rfl

theorem indices_cons {start limit : Int} (more : start < limit) :
    indices start limit = start :: indices (start + 1) limit := by
  have one : (limit - start).toNat = (limit - (start + 1)).toNat + 1 := by omega
  rw [indices, one, List.range_succ_eq_map, List.map_cons, List.map_map, indices]
  refine List.cons_eq_cons.2 ⟨Int.add_zero start, List.map_congr_left fun k _ => ?_⟩
  simp only [Function.comp_apply, Nat.succ_eq_add_one]
  omega

namespace Interpreter

def withStack (s : Interpreter) (stack : List Entity) : Interpreter :=
  { s with machine.bench.stack := stack }

def counting (s : Interpreter) (limit : Int32) (i : Int) : Interpreter :=
  { s with machine.loops := ⟨limit, .ofInt i⟩ :: s.machine.loops }

/-- Puts the counter on, runs the body, and takes the counter off. -/
def iterate (limit : Int32) (body : List Node) (i : Int) (s : Interpreter) :
    Option Stop × Interpreter :=
  let (stop, t) := run [.rest body] (s.counting limit i)
  (stop, { t with machine := t.machine.exitLoop })

/-- The body for one integer after the other, up to the first time that it stops. -/
def forEach (limit : Int32) (body : List Node) : List Int → Interpreter → Option Stop × Interpreter
  | [], s => (none, s)
  | i :: rest, s =>
    match iterate limit body i s with
    | (none, t) => forEach limit body rest t
    | stopped => stopped

theorem run_body_sameControl (body : List Node) (s : Interpreter) :
    SameControl s (run [.rest body] s).2 := by
  rw [← run_block]
  exact run_sameControl (.block body) s

theorem counting_exitLoop {s t : Interpreter} {limit : Int32} {i : Int}
    (same : SameControl (s.counting limit i) t) :
    ∃ u, t = u.counting limit i ∧ { t with machine := t.machine.exitLoop } = u ∧
      SameControl s u := by
  obtain ⟨⟨bench, loops⟩, words, depth, limit, tracing⟩ := t
  obtain ⟨rfl, depth, limit⟩ := same
  exact ⟨_, rfl, rfl, rfl, depth, limit⟩

theorem iterate_cases (limit : Int32) (body : List Node) (i : Int) (s : Interpreter) :
    ∃ stop u, run [.rest body] (s.counting limit i) = (stop, u.counting limit i) ∧
      iterate limit body i s = (stop, u) ∧ SameControl s u := by
  have same := run_body_sameControl body (s.counting limit i)
  unfold iterate
  generalize run [.rest body] (s.counting limit i) = ran at same ⊢
  obtain ⟨stop, t⟩ := ran
  obtain ⟨u, rfl, left, kept⟩ := counting_exitLoop same
  exact ⟨stop, u, rfl, Prod.ext rfl left, kept⟩

theorem forEach_sameControl (limit : Int32) (body : List Node) (is : List Int) (s : Interpreter) :
    SameControl s (forEach limit body is s).2 := by
  induction is generalizing s with
  | nil => exact .refl s
  | cons i rest ih =>
    obtain ⟨stop, u, -, iterated, same⟩ := iterate_cases limit body i s
    rw [forEach, iterated]
    cases stop with
    | none => exact same.trans (ih u)
    | some stop => exact same

theorem toInt_index {limit : Int32} {i : Int} (least : -2147483648 ≤ i) (below : i < limit.toInt) :
    (Int32.ofInt i).toInt = i := by
  have top := limit.toInt_lt
  exact Int32.toInt_ofInt_of_le (by omega) (by omega)

theorem toInt_next {limit : Int32} {i : Int} (least : -2147483648 ≤ i) (below : i < limit.toInt) :
    (Int32.ofInt i + 1).toInt = i + 1 := by
  have more : Int32.ofInt i < limit := by
    rw [Int32.lt_iff_toInt_lt, toInt_index least below]
    exact below
  rw [index_next (l := ⟨limit, .ofInt i⟩) more, toInt_index least below]

theorem step_again {limit : Int32} {i : Int} (least : -2147483648 ≤ i) (below : i < limit.toInt)
    (body : List Node) (waiting : List Frame) (u : Interpreter) :
    step (.again body :: waiting) (u.counting limit i) =
      if i + 1 < limit.toInt then
        .more (.rest body :: .again body :: waiting) (u.counting limit (i + 1))
      else .more waiting u := by
  have next : Int32.ofInt (i + 1) = .ofInt i + 1 := Int32.ofInt_add i 1
  have passed : limit ≤ Int32.ofInt i + 1 ↔ ¬ i + 1 < limit.toInt := by
    rw [Int32.le_iff_toInt_le, toInt_next least below]
    omega
  simp only [step, resume, round, counting, Machine.stepLoop, Machine.loopDone, next, passed]
  by_cases more : i + 1 < limit.toInt
  · simp only [more, not_true_eq_false, decide_false, if_true]
    rfl
  · simp only [more, not_false_eq_true, decide_true, if_true, if_false]
    rfl

theorem run_rounds {limit : Int32} (body : List Node) (waiting : List Frame) (left : Nat) :
    ∀ (i : Int) (s : Interpreter), (limit.toInt - i).toNat = left → -2147483648 ≤ i →
      i < limit.toInt → run (.rest body :: .again body :: waiting) (s.counting limit i) =
        goOn waiting (forEach limit body (indices i limit.toInt) s) := by
  induction left with
  | zero =>
    intro i s size least below
    omega
  | succ left ih =>
    intro i s size least below
    obtain ⟨stop, u, ran, iterated, -⟩ := iterate_cases limit body i s
    have first := run_append [.rest body] (.again body :: waiting) (s.counting limit i)
    rw [ran] at first
    refine first.trans ?_
    rw [indices_cons below, forEach, iterated]
    cases stop with
    | some stop => rfl
    | none =>
      have counted := step_again least below body waiting u
      by_cases more : i + 1 < limit.toInt
      · rw [if_pos more] at counted
        exact (run_of_more counted).trans (ih (i + 1) u (by omega) (by omega) more)
      · rw [if_neg more] at counted
        rw [indices_nil (by omega)]
        exact run_of_more counted

def atLoop (s : Interpreter) (body : List Node) (rest : List Entity) : Interpreter :=
  (s.announce (.loop body)).withStack rest

theorem visit_loop {s : Interpreter} {start limit : Int32} {rest : List Entity} (body : List Node)
    (operands : s.machine.bench.stack = .number start :: .number limit :: rest)
    (room : s.machine.loops.length < maxLoops) :
    visit (.loop body) s =
      if start.toInt < limit.toInt then
        .ok [.rest body, .again body] ((s.atLoop body rest).counting limit start.toInt)
      else .ok [] (s.atLoop body rest) := by
  obtain ⟨out, announced, -⟩ := announce_eq s (.loop body)
  have passed : limit ≤ start ↔ ¬ start.toInt < limit.toInt := by
    rw [Int32.le_iff_toInt_le]
    omega
  have free : ¬ maxLoops ≤ s.machine.loops.length := by omega
  have first : visit (.loop body) s =
      round body { s with machine := ⟨⟨rest, out⟩, ⟨limit, start⟩ :: s.machine.loops⟩ } := by
    change EStateM.bind _ _ _ = _
    simp only [EStateM.bind, announced, onBench, onMachine, Machine.onBench, Bench.popNumber,
      operands, Bind.bind, Machine.enterLoop, if_neg free]
  rw [first]
  simp only [round, Machine.loopDone, passed, atLoop, withStack, announced, counting,
    Int32.ofInt_toInt]
  by_cases more : start.toInt < limit.toInt
  · simp only [more, not_true_eq_false, decide_false, if_true]
    rfl
  · simp only [more, not_false_eq_true, decide_true, if_true, if_false]
    rfl

/-- A loop is the fold of its body over the indices, with the two numbers dropped. -/
theorem run_loop {s : Interpreter} {start limit : Int32} {rest : List Entity} (body ns : List Node)
    (waiting : List Frame)
    (operands : s.machine.bench.stack = .number start :: .number limit :: rest)
    (room : s.machine.loops.length < maxLoops) :
    run (.rest (.loop body :: ns) :: waiting) s = goOn (.rest ns :: waiting)
      (forEach limit body (indices start.toInt limit.toInt) (s.atLoop body rest)) := by
  have visited := visit_loop body operands room
  by_cases more : start.toInt < limit.toInt
  · rw [if_pos more] at visited
    refine (run_of_more (by simp only [step, resume_rest, visited]; rfl)).trans ?_
    exact run_rounds body _ _ _ _ rfl start.le_toInt more
  · rw [if_neg more] at visited
    rw [indices_nil (by omega)]
    exact run_of_more (by simp only [step, resume_rest, visited]; rfl)

theorem indices_succ {start limit : Int} (most : start ≤ limit) :
    indices start (limit + 1) = indices start limit ++ [limit] := by
  have one : (limit + 1 - start).toNat = (limit - start).toNat + 1 := by omega
  have last : start + ((limit - start).toNat : Int) = limit := by omega
  simp only [indices, one, List.range_succ, List.map_append, List.map_cons, List.map_nil, last]

theorem forEach_append (limit : Int32) (body : List Node) (is js : List Int) (s : Interpreter) :
    forEach limit body (is ++ js) s = match forEach limit body is s with
      | (none, t) => forEach limit body js t
      | stopped => stopped := by
  induction is generalizing s with
  | nil => rfl
  | cons i rest ih =>
    rw [List.cons_append, forEach, forEach]
    obtain ⟨stop, t⟩ := iterate limit body i s
    cases stop with
    | none => exact ih t
    | some stop => rfl

/-- The state before the round at `i`, unless the loop has stopped by then. -/
def upTo (s : Interpreter) (start limit : Int32) (body : List Node) (rest : List Entity) (i : Int) :
    Option Stop × Interpreter :=
  forEach limit body (indices start.toInt i) (s.atLoop body rest)

/-- In the round at `i` the body has come to the state `t`, and `inner` is left of it. -/
structure InRound (s : Interpreter) (start limit : Int32) (body : List Node) (rest : List Entity)
    (i : Int) (inner : List Frame) (t : Interpreter) : Prop where
  index : i ∈ indices start.toInt limit.toInt
  reached : ∃ u, s.upTo start limit body rest i = (none, u) ∧
    Reaches [.rest body] (u.counting limit i) inner t

inductive LoopAt (s : Interpreter) (start limit : Int32) (body : List Node) (rest : List Entity) :
    List Frame → Interpreter → Prop
  | entry : LoopAt s start limit body rest [.rest [.loop body]] s
  | round {i : Int} {inner : List Frame} {t : Interpreter}
    (inside : InRound s start limit body rest i inner t) :
    LoopAt s start limit body rest (inner ++ [.again body, .rest []]) t
  | exit (t : Interpreter) : LoopAt s start limit body rest [.rest []] t
  | done (t : Interpreter) : LoopAt s start limit body rest [] t

section

variable {s : Interpreter} {start limit : Int32} {body : List Node} {rest : List Entity}

theorem upTo_succ {i : Int} (index : start.toInt ≤ i) (w : Interpreter) :
    s.upTo start limit body rest (i + 1) = (none, w) ↔
      ∃ u, s.upTo start limit body rest i = (none, u) ∧ iterate limit body i u = (none, w) := by
  unfold upTo
  rw [indices_succ index, forEach_append]
  obtain ⟨stop, u⟩ := forEach limit body (indices start.toInt i) (s.atLoop body rest)
  cases stop with
  | some stop => simp
  | none =>
    simp only [forEach, Prod.mk.injEq, true_and, exists_eq_left']
    obtain ⟨_ | stop, t⟩ := iterate limit body i u <;> simp

theorem iterate_of_reaches {i : Int} {u t : Interpreter}
    (ended : Reaches [.rest body] (u.counting limit i) [] t) :
    ∃ v, t = v.counting limit i ∧ iterate limit body i u = (none, v) := by
  obtain ⟨stop, v, ran, iterated, -⟩ := iterate_cases limit body i u
  obtain ⟨rfl, rfl⟩ := Prod.mk.inj ((reaches_nil_iff.1 ended).symm.trans ran)
  exact ⟨v, rfl, iterated⟩

theorem InRound.first (more : start.toInt < limit.toInt) :
    InRound s start limit body rest start.toInt [.rest body]
      ((s.atLoop body rest).counting limit start.toInt) := by
  refine ⟨mem_indices.2 ⟨Int.le_refl _, more⟩, _, ?_, .start⟩
  rw [upTo, indices_nil (Int.le_refl _)]
  rfl

/-- A step within a round stays there, and one behind it begins the next round or leaves the
loop. -/
theorem LoopAt.step {frames later : List Frame} {t u : Interpreter}
    (operands : s.machine.bench.stack = .number start :: .number limit :: rest)
    (room : s.machine.loops.length < maxLoops) (there : LoopAt s start limit body rest frames t)
    (stepped : Interpreter.step frames t = .more later u) :
    LoopAt s start limit body rest later u := by
  cases there with
  | entry =>
    have visited := visit_loop body operands room
    simp only [Interpreter.step, resume_rest, visited] at stepped
    by_cases more : start.toInt < limit.toInt
    · rw [if_pos more] at stepped
      cases stepped
      have first : InRound s start limit body rest start.toInt [.rest body] _ := .first more
      have round := LoopAt.round first
      exact round
    · rw [if_neg more] at stepped
      cases stepped
      exact .exit _
  | @round i inner _ inside =>
    obtain ⟨index, v, before, reached⟩ := inside
    obtain ⟨least, below⟩ := mem_indices.1 index
    cases inner with
    | cons frame waiting =>
      obtain ⟨_, _, inner, same, resumed, rfl⟩ := step_more stepped
      obtain ⟨rfl, rfl⟩ := List.cons.inj same
      have behind : inner ++ waiting ++ [.again body, .rest []] =
        inner ++ (waiting ++ [.again body, .rest []]) := List.append_assoc ..
      refine behind ▸ .round ⟨index, v, before, .step reached ?_⟩
      simp only [Interpreter.step, resumed]
    | nil =>
      obtain ⟨w, rfl, iterated⟩ := iterate_of_reaches reached
      have lowest := start.le_toInt
      rw [List.nil_append, step_again (by omega) below] at stepped
      by_cases more : i + 1 < limit.toInt
      · rw [if_pos more] at stepped
        cases stepped
        have next : InRound s start limit body rest (i + 1) [.rest body]
            (w.counting limit (i + 1)) := by
          refine ⟨mem_indices.2 ⟨by omega, more⟩, w, ?_, .start⟩
          exact (upTo_succ least w).2 ⟨v, before, iterated⟩
        have round := LoopAt.round next
        exact round
      · rw [if_neg more] at stepped
        cases stepped
        exact .exit _
  | exit =>
    cases stepped
    exact .done _
  | done => cases stepped

theorem reaches_round (body : List Node)
    (operands : s.machine.bench.stack = .number start :: .number limit :: rest)
    (room : s.machine.loops.length < maxLoops) (count : Nat) :
    ∀ u, start.toInt + count < limit.toInt →
      s.upTo start limit body rest (start.toInt + count) = (none, u) →
        Reaches [.rest [.loop body]] s [.rest body, .again body, .rest []]
          (u.counting limit (start.toInt + count)) := by
  induction count with
  | zero =>
    intro u more before
    have first : start.toInt + (0 : Nat) = start.toInt := Int.add_zero _
    rw [first] at more before ⊢
    rw [upTo, indices_nil (Int.le_refl _)] at before
    cases before
    refine .step .start ?_
    simp only [step, resume_rest, visit_loop body operands room, if_pos more]
    rfl
  | succ count ih =>
    intro u more before
    have next : start.toInt + ((count + 1 : Nat) : Int) = start.toInt + count + 1 := by omega
    have lowest := start.le_toInt
    rw [next] at more before ⊢
    obtain ⟨v, earlier, iterated⟩ := (upTo_succ (by omega) u).1 before
    obtain ⟨stop, w, ran, also, -⟩ := iterate_cases limit body (start.toInt + count) v
    obtain ⟨rfl, rfl⟩ := Prod.mk.inj (iterated.symm.trans also)
    have inside := (reaches_nil_iff.2 ran).behind [.again body, .rest []]
    refine ((ih v (by omega) earlier).trans inside).step ?_
    rw [List.nil_append, step_again (by omega) (by omega), if_pos more]

end

/-- All that a visit of `n` does is to push `e`. -/
def Pushes (n : Node) (e : Entity) (s : Interpreter) : Prop :=
  visit n s = .ok [] ((s.announce n).withStack (e :: s.machine.bench.stack))

theorem visit_index (depth : Nat) (s : Interpreter) :
    visit (.index depth) s = match s.machine.loops[depth]? with
      | some l => .ok [] ((s.announce (.index depth)).withStack
          (.number l.index :: s.machine.bench.stack))
      | none => fail (loopName (.ofInt depth)) (.noLoop s.machine.loops.length)
          (s.announce (.index depth)) := by
  obtain ⟨out, announced, -⟩ := announce_eq s (.index depth)
  change EStateM.bind _ _ _ = _
  simp only [EStateM.bind, announced, onMachine, Machine.loopIndex, Int.natCast_nonneg, if_true,
    Int.toNat_natCast]
  cases s.machine.loops[depth]? <;> rfl

theorem pushes_index (depth : Nat) (e : Entity) (s : Interpreter) :
    Pushes (.index depth) e s ↔ s.machine.loops[depth]?.map (.number ·.index) = some e := by
  rw [Pushes, visit_index]
  cases s.machine.loops[depth]? with
  | none => exact iff_of_false nofun nofun
  | some l => simp [withStack]

/-- A round at `i` as its body sees it, in a loop that began in `s`. -/
structure AtIndex (s : Interpreter) (limit : Int32) (i : Int) (t : Interpreter) : Prop where
  counter : t.machine.loops = ⟨limit, .ofInt i⟩ :: s.machine.loops
  own : Pushes (.index 0) (.number (.ofInt i)) t
  outer (depth : Nat) (e : Entity) : Pushes (.index (depth + 1)) e t ↔ Pushes (.index depth) e s

theorem AtIndex.of_counter {s t : Interpreter} {limit : Int32} {i : Int}
    (counter : t.machine.loops = ⟨limit, .ofInt i⟩ :: s.machine.loops) : AtIndex s limit i t where
  counter := counter
  own := (pushes_index 0 _ t).2 (by rw [counter]; rfl)
  outer depth e := by
    refine (pushes_index (depth + 1) e t).trans (Iff.trans ?_ (pushes_index depth e s).symm)
    rw [counter, List.getElem?_cons_succ]

theorem loops_abandonAll {frames : List Frame} (outside : ∀ body, .again body ∉ frames)
    (t : Interpreter) : (frames.foldl abandon t).machine.loops = t.machine.loops := by
  induction frames generalizing t with
  | nil => rfl
  | cons frame frames ih =>
    refine (ih (fun body mem => outside body (.tail _ mem)) _).trans ?_
    cases frame with
    | rest | leave => rfl
    | again body => exact absurd List.mem_cons_self (outside body)

/-- Outside any inner loop the counter of the round is on top of those before the loop, since each
loop that the body has gone into is left again. -/
theorem InRound.atIndex {s t : Interpreter} {start limit : Int32} {body : List Node}
    {rest : List Entity} {i : Int} {inner : List Frame}
    (inside : InRound s start limit body rest i inner t) (outside : ∀ b, .again b ∉ inner) :
    AtIndex s limit i t := by
  obtain ⟨u, before, reached⟩ := inside.reached
  have begun : Held (u.counting limit i) [.rest body] (u.counting limit i) := ⟨trivial, .refl _⟩
  have held := (begun.reached reached).unwound.loops
  have same := forEach_sameControl limit body (indices start.toInt i) (s.atLoop body rest)
  rw [upTo] at before
  rw [before] at same
  refine .of_counter ?_
  rw [← loops_abandonAll outside t, held, counting, same.loops]
  exact congrArg _ (SameControl.announce s _).loops

/-- A loop runs its body for each index from its start up to below its limit, as a fold does that
puts the counter on and takes it off again. Its run goes through the rounds of these indices and no
others; none of them wraps; and outside any inner loop the body reads the index of its round, and of
the loops around it what was read before. -/
theorem loop_runs_each_index {s : Interpreter} {start limit : Int32} {rest : List Entity}
    (body : List Node) (operands : s.machine.bench.stack = .number start :: .number limit :: rest)
    (room : s.machine.loops.length < maxLoops) :
    (∀ (ns : List Node) (waiting : List Frame), run (.rest (.loop body :: ns) :: waiting) s =
      goOn (.rest ns :: waiting) (s.upTo start limit body rest limit.toInt)) ∧
    (∀ (inner : List Frame) (t : Interpreter),
      Reaches [.rest [.loop body]] s (inner ++ [.again body, .rest []]) t ↔
        ∃ i, InRound s start limit body rest i inner t) ∧
    (∀ i ∈ indices start.toInt limit.toInt,
      (Int32.ofInt i).toInt = i ∧ (Int32.ofInt i + 1).toInt = i + 1) ∧
    ∀ (i : Int) (inner : List Frame) (t : Interpreter),
      InRound s start limit body rest i inner t → (∀ b, .again b ∉ inner) →
        AtIndex s limit i t := by
  have lowest := start.le_toInt
  refine ⟨fun ns waiting => run_loop body ns waiting operands room, fun inner t => ⟨?_, ?_⟩, ?_,
    fun i inner t inside outside => inside.atIndex outside⟩
  · intro reached
    have there := reached.keeps (P := LoopAt s start limit body rest)
      (fun _ _ _ _ there stepped => there.step operands room stepped) .entry
    generalize frames : inner ++ [.again body, .rest []] = last at there
    cases there with
    | @round i held _ inside =>
      obtain rfl := List.append_cancel_right frames
      exact ⟨i, inside⟩
    | entry | exit | done =>
      have size := congrArg List.length frames
      simp at size
  · rintro ⟨i, index, u, before, inside⟩
    obtain ⟨least, below⟩ := mem_indices.1 index
    have round : start.toInt + ((i - start.toInt).toNat : Int) = i := by omega
    have reached := reaches_round body operands room (i - start.toInt).toNat u
    rw [round] at reached
    exact (reached below before).trans (inside.behind [.again body, .rest []])
  · intro i index
    obtain ⟨least, below⟩ := mem_indices.1 index
    exact ⟨toInt_index (by omega) below, toInt_next (by omega) below⟩

/-- In a loop at 3 of 7, a loop over the last index that there is. -/
theorem loop_runs_each_index_last :
    let s : Interpreter := { machine := {
      bench := { stack := [.number 2147483646, .number 2147483647] }, loops := [⟨7, 3⟩] } }
    let body : List Node := [.index 0, .index 1]
    let t := (s.atLoop body []).counting 2147483647 2147483646
    s.upTo 2147483646 2147483647 body [] 2147483647 =
      (none, s.withStack [.number 3, .number 2147483646]) ∧
    Reaches [.rest [.loop body]] s [.rest body, .again body, .rest []] t ∧
    Pushes (.index 0) (.number 2147483646) t ∧ Pushes (.index 1) (.number 3) t ∧
    (Int32.ofInt 2147483646 + 1).toInt = 2147483647 := by
  intro s body t
  obtain ⟨whole, rounds, next, seen⟩ := loop_runs_each_index (s := s) body rfl (by decide)
  have ran : run [.rest [.loop body]] s = (none, s.withStack [.number 3, .number 2147483646]) := by
    iterate 6 refine (run_of_more rfl).trans ?_
    exact run_of_ended rfl
  have first : InRound s 2147483646 2147483647 body [] 2147483646 [.rest body] t :=
    .first (by decide)
  have at_index := seen _ _ _ first (by simp)
  have before : Pushes (.index 0) (.number 3) s := rfl
  refine ⟨?_, (rounds _ _).2 ⟨_, first⟩, at_index.own, (at_index.outer 0 _).2 before, ?_⟩
  · exact (goOn_rest_nil _).symm.trans ((whole [] []).symm.trans ran)
  · exact (next 2147483646 (mem_indices.2 (by decide))).2

end Interpreter
end StackLang
