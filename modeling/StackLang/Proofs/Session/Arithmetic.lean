import StackLang.Proofs.Machine.Arithmetic
import StackLang.Proofs.Session.Printing

/-! Arithmetic from text to text. Two numerals and a binary operation print the numeral of what the
operation gives on integers, reduced to a word where it does not fit. -/
namespace StackLang

theorem encode_digitChar : ∀ d < 10, encode d.digitChar = [Text.digit d] := by
  decide

namespace Text

theorem numeral_eq_repr (n : Nat) : numeral 8 n = utf8 n.repr := by
  rw [utf8, Nat.repr_eq_ofList_toDigits, String.toList_ofList]
  induction n using Nat.strong_induction_on with
  | _ n ih =>
    rw [numeral, Nat.toDigits_eq_if (by decide)]
    split
    · rename_i small
      simp [encode_digitChar n small]
    · have small : n % 10 < 10 := Nat.mod_lt n (by decide)
      rw [ih (n / 10) (by omega)]
      simp [encode_digitChar (n % 10) small]

theorem decimal_eq_toString (n : Int) : decimal n = utf8 (toString n) := by
  rw [Int.toString_eq_repr]
  cases n with
  | ofNat n => exact numeral_eq_repr n
  | negSucc n =>
    have sign : encode '-' = [0x2D] := by decide
    rw [decimal, numeral_eq_repr]
    simp [utf8, Int.repr, sign]

end Text

namespace Interpreter
open Bench (Yields)

theorem Straight.number (value : Int32) {ns : List Node} {stack last : List Entity}
    {chunks : List Text} (later : Straight ns (.number value :: stack) last chunks) :
    Straight (.number value :: ns) stack last chunks := by
  have pushed : Yields (Bench.push (.number value)) stack (.number value :: stack) [] :=
    .silent fun _ => rfl
  exact .cons (works_number value) pushed later

theorem straight_print (value : Int32) (stack : List Entity) :
    Straight [.op (.op .emit)] (.number value :: stack) stack [utf8 (toString value.toInt)] := by
  have printed : Yields Bench.emit (.number value :: stack) stack
      [utf8 (toString value.toInt)] := by
    apply Bench.yields_emit
    rw [← Text.decimal_eq_toString]
    rfl
  exact .cons (works_op .emit) printed (.nil stack)

theorem yields_binary {op : Op} (two : Bench.isBinary op = true) {a b n : Int32}
    (combined : Bench.combine op (.number a) (.number b) = .ok (.number n))
    (stack : List Entity) :
    Yields (Bench.perform op) (.number b :: .number a :: stack) (.number n :: stack) [] := by
  refine .silent fun out => ?_
  simp only [Bench.perform_binary two, Bench.binary, combined]

theorem yields_invert (value : Int32) (stack : List Entity) :
    Yields Bench.invert (.number value :: stack) (.number (~~~value) :: stack) [] :=
  .silent fun _ => rfl

/-- Two numbers, an operation on them, and the printing of what it leaves. -/
def calculation (a b : Int32) (op : Op) : List Node :=
  [.number a, .number b] ++ .op (.op op) :: [.op (.op .emit)]

theorem calculation_printable (a b : Int32) (op : Op) :
    ∀ n ∈ calculation a b op, n.Printable := by
  simp only [calculation, List.cons_append, List.nil_append, List.forall_mem_cons]
  exact ⟨.number a, .number b, .op rfl, .op rfl, List.forall_mem_nil _⟩

theorem calculation_source (a b : Int32) (op : Op) : (Node.block (calculation a b op)).source? =
    some (utf8 (toString a.toInt) ++ utf8 " " ++ utf8 (toString b.toInt) ++ utf8 " " ++ op.name ++
      utf8 " .") := by
  have blank : utf8 " " = [Text.space] := by decide
  have closing : utf8 " ." = Text.space :: Op.emit.name := by decide
  simp [calculation, Node.source?, Node.spaced?, Kind.title, blank, closing,
    Text.decimal_eq_toString]

theorem straight_calculation {op : Op} (two : Bench.isBinary op = true) {a b n : Int32}
    (combined : Bench.combine op (.number a) (.number b) = .ok (.number n)) (stack : List Entity) :
    Straight (calculation a b op) stack stack [utf8 (toString n.toInt)] := by
  apply Straight.number a
  apply Straight.number b
  exact .cons (works_op op) (yields_binary two combined stack) (straight_print n stack)

theorem straight_invert (a : Int32) (stack : List Entity) :
    Straight [.number a, .op (.op .invert), .op (.op .emit)] stack stack
      [utf8 (toString (~~~a).toInt)] := by
  apply Straight.number a
  exact .cons (works_op .invert) (yields_invert a stack) (straight_print (~~~a) stack)

/-- What a binary operation gives on integers is printed. Without a result the numbers are lost. -/
theorem exec_calculation (a b : Int32) {op : Op} (two : Bench.isBinary op = true) (s : Interpreter)
    (all : s.machine.bench.out.TakesAll) {src : Text}
    (source : (Node.block (calculation a b op)).source? = some src) :
    match op.result? a.toInt b.toInt with
    | some r => Prints s src (utf8 (toString r))
    | none => (op = .div ∨ op = .mod) ∧ b = 0 ∧ ∃ t, s.exec src =
        (some (.fault { stage := .run, op := op.name } (.cause .divideByZero)), t) ∧
        Printed s [] t := by
  have printable := calculation_printable a b op
  cases result : op.result? a.toInt b.toInt with
  | some r =>
    obtain ⟨n, combined, rfl⟩ := Bench.combine_result result
    have printed := prints_straight printable source (straight_calculation two combined _) all
    rwa [List.flatten_singleton] at printed
  | none =>
    obtain ⟨divides, zero, refused⟩ := Bench.combine_none two result
    have stopped (out : Output) :
        Bench.perform op ⟨.number b :: .number a :: s.machine.bench.stack, out⟩ =
          .error (.fault ⟨op.name, .divideByZero⟩) ⟨s.machine.bench.stack, out⟩ := by
      simp only [Bench.perform_binary two, Bench.binary, refused]
      rfl
    obtain ⟨t, failed, wrote⟩ := exec_stopped printable source
      (.number a (.number b (.nil _))) all (works_op op) stopped
    exact ⟨divides, zero, t, failed, wrote.printed⟩

theorem inversion_printable (a : Int32) :
    ∀ n ∈ [Node.number a, .op (.op .invert), .op (.op .emit)], n.Printable := by
  simp only [List.forall_mem_cons]
  exact ⟨.number a, .op rfl, .op rfl, List.forall_mem_nil _⟩

theorem exec_invert (a : Int32) (s : Interpreter) (all : s.machine.bench.out.TakesAll) :
    Prints s (utf8 (toString a.toInt) ++ utf8 " INVERT .") (utf8 (toString (-a.toInt - 1))) := by
  have closing : utf8 " INVERT ." =
      Text.space :: (Op.invert.name ++ Text.space :: Op.emit.name) := by decide
  have source : (Node.block [.number a, .op (.op .invert), .op (.op .emit)]).source? =
      some (utf8 (toString a.toInt) ++ utf8 " INVERT .") := by
    simp [Node.source?, Node.spaced?, Kind.title, closing, Text.decimal_eq_toString]
  have printed := prints_straight (inversion_printable a) source (straight_invert a _) all
  rwa [List.flatten_singleton, Word.toInt_complement] at printed

/-- What is printed for two numbers is what the operation gives on integers; a division by zero
prints nothing and fails. -/
theorem calculations_print_results (a b : Int32) (s : Interpreter)
    (all : s.machine.bench.out.TakesAll) :
    (∀ op : Op, Bench.isBinary op = true →
      let src := utf8 (toString a.toInt) ++ utf8 " " ++ utf8 (toString b.toInt) ++ utf8 " " ++
        op.name ++ utf8 " ."
      match op.result? a.toInt b.toInt with
      | some r => Prints s src (utf8 (toString r))
      | none => (op = .div ∨ op = .mod) ∧ b = 0 ∧ ∃ t, s.exec src =
          (some (.fault { stage := .run, op := op.name } (.cause .divideByZero)), t) ∧
          Printed s [] t) ∧
    Prints s (utf8 (toString a.toInt) ++ utf8 " INVERT .") (utf8 (toString (-a.toInt - 1))) := by
  constructor
  · intro op two
    exact exec_calculation a b two s all (calculation_source a b op)
  · exact exec_invert a s all

/-- The one quotient that does not fit is reduced to a word, in an interpreter that is new. -/
theorem calculations_print_results_least :
    let s := Interpreter.new { leaves := [0], console := { devices := [{}] } } []
    ∃ t, s.exec (utf8 "-2147483648 -1 / .") = (none, t) ∧
      t.console.dataOf 0 = utf8 "-2147483648" := by
  intro s
  have all : s.machine.bench.out.TakesAll := by
    intro i leaf keeps r mem
    match i, leaf with
    | 0, _ => cases mem
  have printed := (calculations_print_results (-2147483648) (-1) s all).1 .div rfl
  obtain ⟨t, ran, printed⟩ : Prints s (utf8 "-2147483648 -1 / .") (utf8 "-2147483648") := printed
  exact ⟨t, ran, printed.once (i := 0) (by decide) (by decide)⟩

end Interpreter
end StackLang
