import StackLang.Proofs.Interpreter.Lockstep
import StackLang.Proofs.Machine.Numbers
import StackLang.Proofs.Output.Calls

/-! What lies below. A primitive that finds its operands does the same on a deeper stack, and leaves
alone what is below them; only where it finds too few can the deeper stack make a difference. -/
namespace StackLang

def Stop.IsUnderflow : Stop → Prop
  | .fault f => f.trouble.cause = .underflow
  | .broken => False

namespace Bench

/-- The second stack is the first one with more below, and the outputs are related. -/
structure Above (O : Output → Output → Prop) (below : List Entity) (b c : Bench) : Prop where
  stack : c.stack = b.stack ++ below
  out : O b.out c.out

/-- Only an underflow is excused, and only if there really is more below. -/
def Excused (below : List Entity) (stop : Stop) : Prop := below ≠ [] ∧ stop.IsUnderflow

/-- The action does not look below its operands. -/
abbrev Local {α : Type} (O : Output → Output → Prop) (below : List Entity) (act : Action α) : Prop :=
  Respects (Above O below) (Excused below) act

section

variable {O : Output → Output → Prop} {below : List Entity}

theorem local_of {α : Type} {act : Action α}
    (agree : ∀ stack out out', O out out' →
      Agree (Above O below) (Excused below) (act ⟨stack, out⟩) (act ⟨stack ++ below, out'⟩)) :
    Local O below act := by
  rintro ⟨stack, out⟩ ⟨_, out'⟩ ⟨rfl, related⟩
  exact agree stack out out' related

theorem local_push (e : Entity) : Local O below (push e) :=
  local_of fun _ _ _ related => .ok ⟨rfl, related⟩

theorem local_literal (text : Text) : Local O below (Interpreter.literal text) := by
  refine local_of fun stack out out' related => .ok ⟨?_, related⟩
  simp [List.reverseAux_eq]

/-- An action that wants `n` operands, and underflows without them, is local if it is local where it
finds them. -/
theorem local_operands {α : Type} {act : Action α} (n : Nat)
    (few : ∀ stack, stack.length < n →
      ∃ stop, (∀ out, act ⟨stack, out⟩ = .error stop ⟨stack, out⟩) ∧ stop.IsUnderflow)
    (found : ∀ operands rest out out', operands.length = n → O out out' →
      Agree (Above O below) (Excused below) (act ⟨operands ++ rest, out⟩)
        (act ⟨operands ++ (rest ++ below), out'⟩)) : Local O below act := by
  refine local_of fun stack out out' related => ?_
  by_cases short : stack.length < n
  · obtain ⟨stop, failed, lacks⟩ := few stack short
    rw [failed]
    -- with nothing below the two stacks are one, and so are the faults
    by_cases bottom : below = []
    · subst bottom
      rw [List.append_nil, failed]
      exact .error ⟨(List.append_nil _).symm, related⟩
    · exact .excused ⟨bottom, lacks⟩
  · have size : (stack.take n).length = n := by
      rw [List.length_take]
      omega
    have agree := found (stack.take n) (stack.drop n) out out' size related
    rwa [← List.append_assoc, List.take_append_drop] at agree

theorem local_top {α : Type} {act : Action α} {stop : Stop}
    (empty : ∀ out, act ⟨[], out⟩ = .error stop ⟨[], out⟩) (lacks : stop.IsUnderflow)
    (found : ∀ e rest out out', O out out' → Agree (Above O below) (Excused below)
      (act ⟨e :: rest, out⟩) (act ⟨e :: (rest ++ below), out'⟩)) : Local O below act := by
  refine local_operands 1 (fun stack short => ?_) fun operands rest out out' size related => ?_
  · cases List.length_eq_zero_iff.1 (Nat.lt_one_iff.1 short)
    exact ⟨stop, empty, lacks⟩
  · obtain ⟨e, rfl⟩ := List.length_eq_one_iff.1 size
    exact found e rest out out' related

theorem local_topTwo {α : Type} {act : Action α} (op : Text)
    (few : ∀ stack out, stack.length < 2 →
      act ⟨stack, out⟩ = fail op (.lacking 2 stack.length) ⟨stack, out⟩)
    (found : ∀ y x rest out out', O out out' → Agree (Above O below) (Excused below)
      (act ⟨y :: x :: rest, out⟩) (act ⟨y :: x :: (rest ++ below), out'⟩)) : Local O below act := by
  refine local_operands 2 (fun stack short => ?_) fun operands rest out out' size related => ?_
  · exact ⟨_, fun out => few stack out short, rfl⟩
  · match operands, size with
    | [y, x], _ => exact found y x rest out out' related

theorem local_popNumber (op : Text) : Local O below (popNumber op) := by
  refine local_top (fun _ => rfl) rfl fun e rest out out' related => ?_
  cases e with
  | number n => exact .ok ⟨rfl, related⟩
  | _ => exact .error ⟨rfl, related⟩

theorem local_pop (op : Text) : Local O below (Interpreter.pop op) :=
  local_top (fun _ => rfl) rfl fun _ _ _ _ related => .ok ⟨rfl, related⟩

theorem local_dup : Local O below dup :=
  local_top (fun _ => rfl) rfl fun _ _ _ _ related => .ok ⟨rfl, related⟩

theorem local_drop : Local O below drop :=
  local_top (fun _ => rfl) rfl fun _ _ _ _ related => .ok ⟨rfl, related⟩

theorem local_swap : Local O below swap := by
  refine local_topTwo Op.swap.name (fun stack out short => ?_)
    fun _ _ _ _ _ related => .ok ⟨rfl, related⟩
  match stack with
  | [] | [_] => rfl

theorem local_binary (op : Op) : Local O below (binary op) := by
  refine local_topTwo op.name (fun stack out short => ?_) fun y x rest out out' related => ?_
  · match stack with
    | [] | [_] => rfl
  · simp only [binary]
    cases combine op x y with
    | ok e => exact .ok ⟨rfl, related⟩
    | error trouble => exact .error ⟨rfl, related⟩

theorem local_fail {α : Type} (op : Text) (trouble : Trouble) :
    Local O below (fail op trouble : Action α) :=
  respects_throw _

theorem invert_eq : invert = popNumber Op.invert.name >>= fun n => push (.number (~~~n)) := by
  funext b
  change _ = EStateM.bind _ _ b
  unfold invert EStateM.bind
  cases popNumber Op.invert.name b <;> rfl

theorem local_invert : Local O below invert := by
  rw [invert_eq]
  exact (local_popNumber _).bind fun n => local_push _

theorem takeCodes_succ (op : Text) (n : Nat) (codes : List Int32) :
    takeCodes op (n + 1) codes = popNumber op >>= fun code =>
      if isCode code then takeCodes op n (code :: codes) else fail op (.invalidCode code) := by
  funext b
  change _ = EStateM.bind _ _ b
  simp only [takeCodes, EStateM.bind]
  cases popNumber op b with
  | error e b => rfl
  | ok code b =>
    by_cases valid : isCode code = true
    · simp only [if_pos valid]
    · simp only [if_neg valid]

def report (op : Text) (stack : List Entity) : Written × Output → EStateM.Result Stop Bench Unit
  | (⟨_, none⟩, out) => .ok () ⟨stack, out⟩
  | (⟨_, some e⟩, out) => fail op (.writing e) ⟨stack, out⟩

def putCodes (op : Text) (codes : List Int32) : Action Unit := fun b =>
  report op b.stack (b.out.writeCodes codes)

def spell (op : Text) (n : Int32) : Action Unit := fun b =>
  if n < 0 then fail op (.invalidLength n) b
  else if (b.stack.take n.toInt.toNat).length < n.toInt.toNat then
    fail op (.lacking n.toInt.toNat b.stack.length) b
  else (takeCodes op n.toInt.toNat [] >>= putCodes op) b

theorem puts_eq : puts = popNumber Op.puts.name >>= spell Op.puts.name := by
  funext b
  change _ = EStateM.bind _ _ b
  simp only [puts, EStateM.bind]
  cases popNumber Op.puts.name b with
  | error e b => rfl
  | ok n b =>
    simp only [spell]
    congr 2
    change _ = EStateM.bind _ _ b
    unfold EStateM.bind
    cases takeCodes Op.puts.name n.toInt.toNat [] b <;> rfl

theorem local_takeCodes (op : Text) (n : Nat) (codes : List Int32) :
    Local O below (takeCodes op n codes) := by
  induction n generalizing codes with
  | zero => exact respects_pure codes
  | succ n ih =>
    rw [takeCodes_succ]
    refine (local_popNumber op).bind fun code => ?_
    by_cases valid : isCode code = true
    · rw [if_pos valid]
      exact ih (code :: codes)
    · rw [if_neg valid]
      exact local_fail op _

theorem agree_report {here there : Written × Output}
    (written : SameAnswer O here there) (op : Text) (stack : List Entity) :
    Agree (Above O below) (Excused below) (report op stack here)
      (report op (stack ++ below) there) := by
  obtain ⟨⟨taken, error⟩, out⟩ := here
  obtain ⟨_, out'⟩ := there
  obtain ⟨rfl, related⟩ := written
  cases error with
  | none => exact .ok ⟨rfl, related⟩
  | some e => exact .error ⟨rfl, related⟩

section

variable (steady : Output.Steady O)

include steady

theorem local_write (op : Op) (data : Text) : Local O below (write op data) :=
  local_of fun stack _ _ related => agree_report (steady.write related data) op.name stack

theorem local_emit : Local O below emit := by
  refine local_top (fun _ => rfl) rfl fun e rest out out' related => ?_
  simp only [emit]
  cases e.emitted? with
  | some data => exact local_write steady .emit data _ _ ⟨rfl, related⟩
  | none => exact .error ⟨rfl, related⟩

theorem local_putCodes (op : Text) (codes : List Int32) : Local O below (putCodes op codes) :=
  local_of fun stack _ _ related => agree_report (steady.writeCodes related codes) op stack

theorem local_spell (op : Text) (n : Int32) : Local O below (spell op n) := by
  by_cases negative : n < 0
  · refine local_of fun stack out out' related => ?_
    simp only [spell, if_pos negative]
    exact .error ⟨rfl, related⟩
  refine local_operands n.toInt.toNat (fun stack short => ?_)
    fun operands rest out out' size related => ?_
  · have lacking : (stack.take n.toInt.toNat).length < n.toInt.toNat := by
      rw [List.length_take]
      omega
    have failed (out : Output) : spell op n ⟨stack, out⟩ =
        fail op (.lacking n.toInt.toNat stack.length) ⟨stack, out⟩ := by
      simp only [spell, if_neg negative, if_pos lacking]
    exact ⟨_, failed, rfl⟩
  · have enough (more : List Entity) :
        ¬ ((operands ++ more).take n.toInt.toNat).length < n.toInt.toNat := by
      rw [List.length_take, List.length_append]
      omega
    simp only [spell, if_neg negative, if_neg (enough _)]
    refine (local_takeCodes op _ []).bind (fun codes => ?_) _ _ ⟨?_, related⟩
    · exact local_putCodes steady op codes
    · exact (List.append_assoc ..).symm

theorem local_perform (op : Op) : Local O below (perform op) := by
  cases op with
  | invert => exact local_invert
  | dup => exact local_dup
  | swap => exact local_swap
  | drop => exact local_drop
  | emit => exact local_emit steady
  | puts =>
    rw [perform, puts_eq]
    exact (local_popNumber _).bind fun n => local_spell steady _ n
  | cr => exact local_write steady .cr _
  | _ =>
    rw [perform_binary rfl]
    exact local_binary _

theorem local_execute (kind : Kind) : Local O below (execute kind) := by
  cases kind with
  | op o => exact local_perform steady o
  | _ => exact local_fail _ _

end

end

end Bench
end StackLang
