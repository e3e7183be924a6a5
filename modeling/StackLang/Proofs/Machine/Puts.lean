import Mathlib.Data.List.Induction
import StackLang.Proofs.Interpreter.Action
import StackLang.Proofs.Machine.Requests
import StackLang.Proofs.Output.Chunks

/-! Writing characters off the stack. All operands are looked at, from the top down, before the
first of them is written; so a stack that does not spell characters is told from one that does by
its first bad operand, and nothing has been written then. -/
namespace StackLang

def Entity.ofChar (c : Char) : Entity := .number (codeOf c)

namespace Bench
open Output (Paired TakesAll Copied)
open Console (SameOffers)

def spelling (chars : List Char) : List Entity := (chars.map Entity.ofChar).reverse

@[simp] theorem length_spelling (chars : List Char) : (spelling chars).length = chars.length := by
  simp [spelling]

/-- The stack has a count on top and so many characters below it. -/
def Spelled (stack : List Entity) (chars : List Char) (below : List Entity) : Prop :=
  ∃ n : Int32, stack = .number n :: (spelling chars ++ below) ∧ n.toInt = chars.length

/-- What a stack that does not spell characters is blamed for, and what is below its operands. -/
inductive Blames : List Entity → Cause → List Entity → Prop
  | empty : Blames [] .underflow []
  | count {e : Entity} {below : List Entity} (other : ∀ n, e ≠ .number n) :
    Blames (e :: below) .typeMismatch below
  | negative {n : Int32} {below : List Entity} (sign : n.toInt < 0) :
    Blames (.number n :: below) .invalidLength below
  | lacking {n : Int32} {below : List Entity} (few : (below.length : Int) < n.toInt) :
    Blames (.number n :: below) .underflow below
  | mismatch {n : Int32} {chars : List Char} {e : Entity} {deeper below : List Entity}
    (size : n.toInt = (chars.length + 1 + deeper.length : Nat)) (other : ∀ code, e ≠ .number code) :
    Blames (.number n :: (spelling chars ++ e :: (deeper ++ below))) .typeMismatch below
  | invalid {n code : Int32} {chars : List Char} {deeper below : List Entity}
    (size : n.toInt = (chars.length + 1 + deeper.length : Nat)) (other : ∀ c, code ≠ codeOf c) :
    Blames (.number n :: (spelling chars ++ .number code :: (deeper ++ below))) .invalidCode below

theorem popNumber_other {e : Entity} (other : ∀ n, e ≠ .number n) (op : Text) (rest : List Entity)
    (out : Output) : popNumber op ⟨e :: rest, out⟩ =
      .error (.fault ⟨op, .notNumber e.type⟩) ⟨rest, out⟩ := by
  cases e with
  | number n => exact absurd rfl (other n)
  | _ => rfl

theorem takeCodes_spelling (op : Text) (chars : List Char) (n : Nat) (codes : List Int32)
    (rest : List Entity) (out : Output) :
    takeCodes op (chars.length + n) codes ⟨spelling chars ++ rest, out⟩ =
      takeCodes op n (chars.map codeOf ++ codes) ⟨rest, out⟩ := by
  induction chars using List.reverseRecOn generalizing codes with
  | nil => simp [spelling]
  | append_singleton chars c ih =>
    have top : spelling (chars ++ [c]) = .number (codeOf c) :: spelling chars := by
      simp [spelling, Entity.ofChar]
    have count : (chars ++ [c]).length + n = chars.length + n + 1 := by
      simp only [List.length_append, List.length_singleton]
      omega
    rw [top, count, List.cons_append, takeCodes]
    simp only [popNumber, isCode_codeOf, if_true]
    rw [ih, List.map_append, List.append_assoc]
    rfl

inductive Flaw : Entity → Trouble → Prop
  | mismatch {e : Entity} (other : ∀ code, e ≠ .number code) : Flaw e (.notNumber e.type)
  | invalid {code : Int32} (other : ∀ c, code ≠ codeOf c) : Flaw (.number code) (.invalidCode code)

/-- The bad operand that is nearest to the top is the one to blame. -/
theorem takeCodes_flaw (op : Text) (chars : List Char) (n : Nat) (codes : List Int32) {e : Entity}
    {trouble : Trouble} (flaw : Flaw e trouble) (rest : List Entity) (out : Output) :
    takeCodes op (chars.length + (n + 1)) codes ⟨spelling chars ++ e :: rest, out⟩ =
      .error (.fault ⟨op, trouble⟩) ⟨rest, out⟩ := by
  rw [takeCodes_spelling]
  cases flaw with
  | mismatch other => simp only [takeCodes, popNumber_other other]
  | invalid other =>
    have invalid : ¬ isCode _ = true := fun valid =>
      (exists_codeOf valid).elim fun c same => other c same
    simp only [takeCodes, popNumber, if_neg invalid]
    rfl

theorem puts_number (n : Int32) (rest : List Entity) (out : Output) :
    puts ⟨.number n :: rest, out⟩ = spell Op.puts.name n ⟨rest, out⟩ := by
  rw [puts_eq]
  rfl

theorem puts_enough {n : Int32} {size : Nat} (count : n.toInt = size) {rest : List Entity}
    (enough : size ≤ rest.length) (out : Output) :
    puts ⟨.number n :: rest, out⟩ =
      (takeCodes Op.puts.name size [] >>= putCodes Op.puts.name) ⟨rest, out⟩ := by
  have sign : ¬ n < 0 := by
    have zero : (0 : Int32).toInt = 0 := rfl
    rw [Int32.lt_iff_toInt_lt, zero]
    omega
  have value : n.toInt.toNat = size := by omega
  have there : ¬ (rest.take size).length < size := by
    rw [List.length_take]
    omega
  simp only [puts_number, spell, if_neg sign, value, if_neg there]

theorem report_eq (op : Text) (stack : List Entity) (answer : Written × Output) :
    report op stack answer = match answer.1.error with
      | none => .ok () ⟨stack, answer.2⟩
      | some e => .error (.fault ⟨op, .writing e⟩) ⟨stack, answer.2⟩ := by
  obtain ⟨⟨taken, error⟩, out⟩ := answer
  cases error <;> rfl

theorem puts_spelling {n : Int32} {chars : List Char} (count : n.toInt = chars.length)
    (below : List Entity) (out : Output) :
    puts ⟨.number n :: (spelling chars ++ below), out⟩ =
      report Op.puts.name below (out.writeCodes (chars.map codeOf)) := by
  have enough : chars.length ≤ (spelling chars ++ below).length := by simp
  have taken : takeCodes Op.puts.name chars.length [] ⟨spelling chars ++ below, out⟩ =
      .ok (chars.map codeOf) ⟨below, out⟩ := by
    have all := takeCodes_spelling Op.puts.name chars 0 [] below out
    rw [List.append_nil] at all
    exact all
  rw [puts_enough count enough, bind_of_ok taken]
  rfl

theorem puts_flaw {n : Int32} {chars : List Char} {deeper : List Entity}
    (count : n.toInt = (chars.length + 1 + deeper.length : Nat)) {e : Entity} {trouble : Trouble}
    (flaw : Flaw e trouble) (below : List Entity) (out : Output) :
    puts ⟨.number n :: (spelling chars ++ e :: (deeper ++ below)), out⟩ =
        .error (.fault ⟨Op.puts.name, trouble⟩) ⟨deeper ++ below, out⟩ ∧
      deeper ++ below <:+ .number n :: (spelling chars ++ e :: (deeper ++ below)) := by
  have size : n.toInt = (chars.length + (deeper.length + 1) : Nat) := by omega
  have enough : chars.length + (deeper.length + 1) ≤
      (spelling chars ++ e :: (deeper ++ below)).length := by
    simp only [List.length_append, length_spelling, List.length_cons]
    omega
  constructor
  · rw [puts_enough size enough]
    exact bind_of_error (takeCodes_flaw Op.puts.name chars deeper.length [] flaw _ out)
  · exact ⟨.number n :: (spelling chars ++ [e]), by simp⟩

theorem puts_blames {stack below : List Entity} {cause : Cause} (blames : Blames stack cause below)
    (out : Output) : ∃ trouble left, puts ⟨stack, out⟩ =
      .error (.fault ⟨Op.puts.name, trouble⟩) ⟨left ++ below, out⟩ ∧ trouble.cause = cause ∧
        left ++ below <:+ stack := by
  cases blames with
  | empty => exact ⟨.underflow, [], rfl, rfl, List.suffix_rfl⟩
  | @count e below other =>
    refine ⟨.notNumber e.type, [], ?_, rfl, List.suffix_cons ..⟩
    simp only [puts, popNumber_other other]
    rfl
  | @negative n below sign =>
    refine ⟨.invalidLength n, [], ?_, rfl, List.suffix_cons ..⟩
    have negative : n < 0 := Int32.lt_iff_toInt_lt.2 sign
    simp only [puts_number, spell, if_pos negative]
    rfl
  | @lacking n below few =>
    refine ⟨.lacking n.toInt.toNat below.length, [], ?_, rfl, List.suffix_cons ..⟩
    have sign : ¬ n < 0 := by
      have zero : (0 : Int32).toInt = 0 := rfl
      rw [Int32.lt_iff_toInt_lt, zero]
      omega
    have short : (below.take n.toInt.toNat).length < n.toInt.toNat := by
      rw [List.length_take]
      omega
    simp only [puts_number, spell, if_neg sign, if_pos short]
    rfl
  | @mismatch n chars e deeper below size other =>
    obtain ⟨stopped, suffix⟩ := puts_flaw size (.mismatch other) below out
    exact ⟨_, deeper, stopped, rfl, suffix⟩
  | @invalid n code chars deeper below size other =>
    obtain ⟨stopped, suffix⟩ := puts_flaw size (.invalid other) below out
    exact ⟨_, deeper, stopped, rfl, suffix⟩

theorem spelling_or_flaw (operands : List Entity) :
    (∃ chars, operands = spelling chars) ∨
      ∃ chars e deeper trouble, operands = spelling chars ++ e :: deeper ∧ Flaw e trouble := by
  induction operands with
  | nil => exact .inl ⟨[], rfl⟩
  | cons e rest ih =>
    by_cases char : ∃ c, e = .ofChar c
    · obtain ⟨c, rfl⟩ := char
      have top (chars : List Char) : spelling (chars ++ [c]) = .ofChar c :: spelling chars := by
        simp [spelling]
      rcases ih with ⟨chars, rfl⟩ | ⟨chars, e, deeper, trouble, rfl, flaw⟩
      · exact .inl ⟨chars ++ [c], (top chars).symm⟩
      · refine .inr ⟨chars ++ [c], e, deeper, trouble, ?_, flaw⟩
        rw [top, List.cons_append]
    · refine .inr ⟨[], e, rest, ?_⟩
      by_cases number : ∃ code, e = .number code
      · obtain ⟨code, rfl⟩ := number
        exact ⟨_, rfl, .invalid fun c same => char ⟨c, congrArg Entity.number same⟩⟩
      · exact ⟨_, rfl, .mismatch fun code same => number ⟨code, same⟩⟩

theorem spelled_or_blames (stack : List Entity) :
    (∃ chars below, Spelled stack chars below) ∨ ∃ cause below, Blames stack cause below := by
  cases stack with
  | nil => exact .inr ⟨_, _, .empty⟩
  | cons e rest =>
    by_cases number : ∃ n, e = .number n
    · obtain ⟨n, rfl⟩ := number
      by_cases sign : n.toInt < 0
      · exact .inr ⟨_, _, .negative sign⟩
      by_cases few : (rest.length : Int) < n.toInt
      · exact .inr ⟨_, _, .lacking few⟩
      have size : (rest.take n.toInt.toNat).length = n.toInt.toNat := by
        rw [List.length_take]
        omega
      have split := List.take_append_drop n.toInt.toNat rest
      rcases spelling_or_flaw (rest.take n.toInt.toNat) with
        ⟨chars, operands⟩ | ⟨chars, e, deeper, trouble, operands, flaw⟩
      · rw [operands] at size split
        rw [length_spelling] at size
        exact .inl ⟨chars, _, n, congrArg _ split.symm, by omega⟩
      · rw [operands] at size split
        rw [List.length_append, length_spelling, List.length_cons] at size
        have count : n.toInt = (chars.length + 1 + deeper.length : Nat) := by omega
        rw [← split, List.append_assoc, List.cons_append]
        cases flaw with
        | mismatch other => exact .inr ⟨_, _, .mismatch count other⟩
        | invalid other => exact .inr ⟨_, _, .invalid count other⟩
    · exact .inr ⟨_, _, .count fun n same => number ⟨n, same⟩⟩

/-- Characters are written as their encodings, one after the other and up to the first error, with
whatever calls the devices have. -/
theorem puts_chunks {stack below : List Entity} {chars : List Char}
    (spelled : Spelled stack chars below) (out : Output) :
    let written := out.writeChunks (chars.map String.utf8EncodeChar)
    ∃ p, Paired SameOffers written.2 p ∧ puts ⟨stack, out⟩ = match written.1 with
      | none => .ok () ⟨below, p⟩
      | some e => .error (.fault ⟨Op.puts.name, .writing e⟩) ⟨below, p⟩ := by
  obtain ⟨n, rfl, count⟩ := spelled
  have chunks : (chars.map codeOf).map Output.codeBytes = chars.map String.utf8EncodeChar := by
    simp only [List.map_map, Function.comp_def, Output.codeBytes_codeOf, encode_eq]
  obtain ⟨error, same⟩ :=
    Output.writeCodesAfter_chunks ⟨rfl, rfl, .refl out.console⟩ 0 (chars.map codeOf)
  rw [chunks] at error same
  refine ⟨_, same, ?_⟩
  rw [puts_spelling count, report_eq, ← error]
  rfl

/-- Before anything is written all operands are looked at. If they are characters, exactly they and
their count are taken, and their encodings are written up to the first error. Otherwise the fault is
blamed on the operands, nothing is written, and what stands below them stays. -/
theorem puts_checks_first (stack : List Entity) (out : Output) :
    (∀ chars below, Spelled stack chars below →
      let written := out.writeChunks (chars.map String.utf8EncodeChar)
      ∃ p, Paired SameOffers written.2 p ∧ puts ⟨stack, out⟩ = match written.1 with
        | none => .ok () ⟨below, p⟩
        | some e => .error (.fault ⟨Op.puts.name, .writing e⟩) ⟨below, p⟩) ∧
    (∀ cause below, Blames stack cause below → ∃ trouble left, puts ⟨stack, out⟩ =
      .error (.fault ⟨Op.puts.name, trouble⟩) ⟨left ++ below, out⟩ ∧ trouble.cause = cause ∧
        left ++ below <:+ stack) ∧
    ((∃ chars below, Spelled stack chars below) ∨ ∃ cause below, Blames stack cause below) ∧
    (out.TakesAll → ∃ chars : List Char, Ensures puts ⟨stack, out⟩
      (fun _ b => Copied out (chars.map String.utf8EncodeChar) b.out)
      fun _ b => Copied out (chars.map String.utf8EncodeChar) b.out) := by
  refine ⟨fun chars below spelled => puts_chunks spelled out,
    fun cause below blames => puts_blames blames out, spelled_or_blames stack, fun all => ?_⟩
  rcases spelled_or_blames stack with ⟨chars, below, spelled⟩ | ⟨cause, below, blames⟩
  · obtain ⟨fine, copied⟩ := Output.copied_writeChunks all (chars.map String.utf8EncodeChar)
    obtain ⟨p, same, done⟩ := puts_chunks spelled out
    rw [fine] at done
    refine ⟨chars, ?_⟩
    unfold Ensures
    rw [done]
    exact copied.sameOffers same
  · obtain ⟨trouble, left, stopped, -, -⟩ := puts_blames blames out
    refine ⟨[], ?_⟩
    unfold Ensures
    rw [stopped]
    exact .nothing out

/-- Two characters go out to a device that has a call for each kind of them. A bad code stops the
operation although there is a worse operand deeper down. -/
theorem puts_checks_first_mixed :
    let out : Output := { leaves := [0], console := { devices := [{ kind := .characters }] } }
    let good : List Entity := [.number 2, .number 0xE9, .number 0x68, .nothing]
    let bad : List Entity := [.number 2, .number 0xD800, .nothing, .number 7]
    (∃ p, puts ⟨good, out⟩ = .ok () ⟨[.nothing], p⟩ ∧
      p.console.dataOf 0 = [0x68, 0xC3, 0xA9]) ∧
    ∃ trouble left, puts ⟨bad, out⟩ =
      .error (.fault ⟨Op.puts.name, trouble⟩) ⟨left ++ [.number 7], out⟩ ∧
        trouble.cause = .invalidCode := by
  intro out good bad
  constructor
  · have spelled : Spelled good ['h', 'é'] [.nothing] := ⟨2, rfl, rfl⟩
    obtain ⟨p, same, done⟩ := (puts_checks_first good out).1 _ _ spelled
    exact ⟨p, done, (same.console.dataOf 0).trans (by decide)⟩
  · have surrogate (c : Char) : (0xD800 : Int32) ≠ codeOf c := by
      intro same
      have valid := isCode_codeOf c
      rw [← same] at valid
      exact absurd valid (by decide)
    have blames : Blames bad .invalidCode [.number 7] :=
      @Blames.invalid 2 0xD800 [] [.nothing] [.number 7] rfl surrogate
    obtain ⟨trouble, left, stopped, cause, -⟩ := (puts_checks_first bad out).2.1 _ _ blames
    exact ⟨trouble, left, stopped, cause⟩

end Bench
end StackLang
