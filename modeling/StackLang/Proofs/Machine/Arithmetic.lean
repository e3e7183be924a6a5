import Mathlib.Data.Int.Bitwise
import StackLang.Proofs.Machine.Numbers

/-! Arithmetic on words as arithmetic on integers. A binary operation on two numbers gives the
number that the same operation on integers gives, reduced to a word where it does not fit. -/
namespace StackLang

/-- What a binary operation is on integers. There is no result for a division by zero. -/
def Op.result? : Op → Int → Int → Option Int
  | .add, a, b => some ((a + b).bmod (2 ^ 32))
  | .sub, a, b => some ((a - b).bmod (2 ^ 32))
  | .mul, a, b => some ((a * b).bmod (2 ^ 32))
  | .div, a, b => if b = 0 then none else some ((a.tdiv b).bmod (2 ^ 32))
  | .mod, a, b => if b = 0 then none else some (a.tmod b)
  | .and, a, b => some (a.land b)
  | .or, a, b => some (a.lor b)
  | .lt, a, b => some (if a < b then 1 else 0)
  | .gt, a, b => some (if b < a then 1 else 0)
  | .le, a, b => some (if a ≤ b then 1 else 0)
  | .ge, a, b => some (if b ≤ a then 1 else 0)
  | .eq, a, b | .same, a, b => some (if a = b then 1 else 0)
  | _, _, _ => none

namespace Word

theorem eq_of_testBit {m n : Int} (same : ∀ k, m.testBit k = n.testBit k) : m = n := by
  -- far enough up, all bits are the sign
  have unlike (p q : Nat) : ∃ k, p.testBit k = false ∧ q.testBit k = false := by
    refine ⟨p + q, Nat.testBit_lt_two_pow ?_, Nat.testBit_lt_two_pow ?_⟩
    · exact Nat.lt_of_le_of_lt (Nat.le_add_right p q) Nat.lt_two_pow_self
    · exact Nat.lt_of_le_of_lt (Nat.le_add_left q p) Nat.lt_two_pow_self
  cases m with
  | ofNat p =>
    cases n with
    | ofNat q => exact congrArg Int.ofNat (Nat.eq_of_testBit_eq same)
    | negSucc q =>
      obtain ⟨k, first, second⟩ := unlike p q
      have both := same k
      simp [Int.testBit, first, second] at both
  | negSucc p =>
    cases n with
    | ofNat q =>
      obtain ⟨k, first, second⟩ := unlike p q
      have both := same k
      simp [Int.testBit, first, second] at both
    | negSucc q =>
      refine congrArg Int.negSucc (Nat.eq_of_testBit_eq fun k => ?_)
      exact Bool.not_inj (same k)

/-- Beyond its 32 bits a word goes on with its sign. -/
theorem testBit_toInt (x : BitVec 32) (k : Nat) :
    x.toInt.testBit k = if k < 32 then x.getLsbD k else x.msb := by
  have bits : x.toNat.testBit k = x.getLsbD k := rfl
  have top := x.isLt
  cases sign : x.msb with
  | false =>
    have value : x.toInt = .ofNat x.toNat := by simp [BitVec.toInt_eq_msb_cond, sign]
    rw [value, Int.testBit, bits]
    by_cases low : k < 32
    · rw [if_pos low]
    · rw [if_neg low, BitVec.getLsbD_of_ge x k (by omega)]
  | true =>
    have value : x.toInt = .negSucc (2 ^ 32 - (x.toNat + 1)) := by
      rw [BitVec.toInt_eq_msb_cond, if_pos sign, Int.negSucc_eq]
      omega
    rw [value, Int.testBit, Nat.testBit_two_pow_sub_succ top, bits]
    by_cases low : k < 32
    · simp [low]
    · simp [low]

theorem toInt_and (a b : Int32) : (a &&& b).toInt = a.toInt.land b.toInt := by
  apply eq_of_testBit
  intro k
  simp only [← Int32.toInt_toBitVec, Int.testBit_land, testBit_toInt, Int32.toBitVec_and]
  split
  · exact BitVec.getLsbD_and
  · exact BitVec.msb_and

theorem toInt_or (a b : Int32) : (a ||| b).toInt = a.toInt.lor b.toInt := by
  apply eq_of_testBit
  intro k
  simp only [← Int32.toInt_toBitVec, Int.testBit_lor, testBit_toInt, Int32.toBitVec_or]
  split
  · exact BitVec.getLsbD_or
  · exact BitVec.msb_or

theorem toInt_complement (a : Int32) : (~~~a).toInt = -a.toInt - 1 := by
  have bottom := a.le_toInt
  have top := a.toInt_lt
  rw [Int32.toInt_not]
  exact Int.bmod_eq_of_le (by simp; omega) (by simp; omega)

end Word

namespace Bench
open Word

theorem truth_number {p : Bool} {q : Prop} [Decidable q] (same : p = true ↔ q) :
    ∃ n : Int32, truth p = .number n ∧ n.toInt = if q then 1 else 0 := by
  by_cases holds : q
  · exact ⟨1, by rw [truth, if_pos (same.2 holds)], by rw [if_pos holds]; rfl⟩
  · exact ⟨0, by rw [truth, if_neg (mt same.1 holds)], by rw [if_neg holds]; rfl⟩

theorem equal_numbers (a b : Int32) :
    Entity.equal (.number a) (.number b) = true ↔ a.toInt = b.toInt := by
  simp [Entity.equal, Entity.numeric?]

theorem toInt_eq_zero {b : Int32} : b.toInt = 0 ↔ b = 0 := by
  constructor
  · intro zero
    exact Int32.toInt_inj.1 zero
  · rintro rfl
    rfl

/-- Two numbers are combined as the integers that they stand for are. -/
theorem combine_result {op : Op} {a b : Int32} {r : Int}
    (result : op.result? a.toInt b.toInt = some r) :
    ∃ n : Int32, combine op (.number a) (.number b) = .ok (.number n) ∧ n.toInt = r := by
  have compared {p : Bool} {q : Prop} [Decidable q] (same : p = true ↔ q)
      (value : some (if q then (1 : Int) else 0) = some r) :
      ∃ n : Int32, Except.ok (truth p) = (.ok (.number n) : Except Trouble Entity) ∧
        n.toInt = r := by
    obtain ⟨n, number, toInt⟩ := truth_number same
    exact ⟨n, congrArg _ number, toInt.trans (Option.some.inj value)⟩
  cases op with
  | add =>
    cases result
    exact ⟨a + b, rfl, Int32.toInt_add a b⟩
  | sub =>
    cases result
    exact ⟨a - b, rfl, Int32.toInt_sub a b⟩
  | mul =>
    cases result
    exact ⟨a * b, rfl, Int32.toInt_mul a b⟩
  | div =>
    by_cases zero : b = 0
    · simp [Op.result?, zero] at result
    · simp only [Op.result?, toInt_eq_zero, if_neg zero] at result
      cases result
      exact ⟨a / b, by simp [combine, arith, zero], Int32.toInt_div a b⟩
  | mod =>
    by_cases zero : b = 0
    · simp [Op.result?, zero] at result
    · simp only [Op.result?, toInt_eq_zero, if_neg zero] at result
      cases result
      exact ⟨a % b, by simp [combine, arith, zero], Int32.toInt_mod a b⟩
  | and =>
    cases result
    exact ⟨a &&& b, rfl, toInt_and a b⟩
  | or =>
    cases result
    exact ⟨a ||| b, rfl, toInt_or a b⟩
  | lt => exact compared (by rw [decide_eq_true_eq, Int32.lt_iff_toInt_lt]) result
  | gt => exact compared (by rw [decide_eq_true_eq, Int32.lt_iff_toInt_lt]) result
  | le => exact compared (by rw [decide_eq_true_eq, Int32.le_iff_toInt_le]) result
  | ge => exact compared (by rw [decide_eq_true_eq, Int32.le_iff_toInt_le]) result
  | eq | same => exact compared (equal_numbers a b) result
  | _ => cases result

theorem combine_none {op : Op} (two : isBinary op = true) {a b : Int32}
    (none : op.result? a.toInt b.toInt = none) :
    (op = .div ∨ op = .mod) ∧ b = 0 ∧
      combine op (.number a) (.number b) = .error .divideByZero := by
  cases op with
  | div | mod =>
    by_cases zero : b = 0
    · exact ⟨by simp, zero, by simp [combine, arith, zero]⟩
    · simp only [Op.result?, toInt_eq_zero, if_neg zero] at none
      cases none
  | invert | dup | swap | drop | emit | puts | cr => cases two
  | _ => cases none

end Bench
end StackLang
