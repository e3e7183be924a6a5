import StackLang.Proofs.Interpreter.Action

/-! A stack of numbers. Every primitive leaves only numbers where it found only numbers, and then
it cannot stop over the type of anything. -/
namespace StackLang

def Entity.IsNumber : Entity → Prop
  | .number _ => True
  | _ => False

/-- A stop that is no mismatch of types, no strange operation and no breaking off. -/
def Stop.Harmless : Stop → Prop
  | .fault f => f.trouble.cause ≠ .typeMismatch ∧ f.trouble.cause ≠ .notOperation
  | .broken => False

namespace Bench

def Numbers (b : Bench) : Prop := ∀ e ∈ b.stack, e.IsNumber

theorem Numbers.tail {b : Bench} {e : Entity} {rest : List Entity} (numbers : b.Numbers)
    (held : b.stack = e :: rest) : ∃ n, e = .number n ∧ ∀ f ∈ rest, f.IsNumber := by
  have both : e.IsNumber ∧ ∀ f ∈ rest, f.IsNumber := by
    apply List.forall_mem_cons.1
    rw [← held]
    exact numbers
  cases e with
  | number n => exact ⟨n, rfl, both.2⟩
  | _ => exact both.1.elim

/-- From a stack of numbers the action leaves a stack of numbers, also when it stops, and it only
stops harmlessly. -/
def KeepsNumbers {α : Type} (act : Action α) : Prop :=
  ∀ b : Bench, b.Numbers →
    Ensures act b (fun _ c => c.Numbers) fun stop c => c.Numbers ∧ stop.Harmless

theorem keeps_push {e : Entity} (number : e.IsNumber) : KeepsNumbers (push e) := by
  intro b numbers
  exact List.forall_mem_cons.2 ⟨number, numbers⟩

theorem keeps_popNumber (op : Text) : KeepsNumbers (popNumber op) := by
  intro b numbers
  unfold Ensures popNumber
  cases held : b.stack with
  | nil => exact ⟨numbers, by simp [Stop.Harmless, Trouble.cause]⟩
  | cons e rest =>
    obtain ⟨n, rfl, below⟩ := numbers.tail held
    exact below

theorem keeps_pop (op : Text) (b : Bench) (numbers : b.Numbers) :
    Ensures (Interpreter.pop op) b (fun e c => e.IsNumber ∧ c.Numbers)
      fun stop c => c.Numbers ∧ stop.Harmless := by
  unfold Ensures Interpreter.pop
  cases held : b.stack with
  | nil => exact ⟨numbers, by simp [Stop.Harmless, Trouble.cause]⟩
  | cons e rest =>
    obtain ⟨n, rfl, below⟩ := numbers.tail held
    exact ⟨trivial, below⟩

theorem harmless_writing (op : Text) (e : WriteError) : (Stop.fault ⟨op, .writing e⟩).Harmless := by
  cases e <;> simp [Stop.Harmless, Trouble.cause, WriteError.cause]

theorem keeps_write (op : Op) (data : Text) : KeepsNumbers (write op data) := by
  intro b numbers
  unfold Ensures write
  obtain ⟨⟨taken, error⟩, out⟩ := b.out.write data
  cases error with
  | none => exact numbers
  | some e => exact ⟨numbers, harmless_writing op.name e⟩

theorem keeps_takeCodes (op : Text) (n : Nat) (codes : List Int32) :
    KeepsNumbers (takeCodes op n codes) := by
  induction n generalizing codes with
  | zero => exact fun b numbers => numbers
  | succ n ih =>
    intro b numbers
    have popped := keeps_popNumber op b numbers
    unfold Ensures at popped ⊢
    simp only [takeCodes]
    cases acted : popNumber op b with
    | error stop c => simpa [acted] using popped
    | ok code c =>
      simp only [acted] at popped ⊢
      by_cases valid : isCode code = true
      · rw [if_pos valid]
        exact ih (code :: codes) c popped
      · rw [if_neg valid]
        exact ⟨popped, by simp [Stop.Harmless, Trouble.cause]⟩

theorem keeps_puts : KeepsNumbers puts := by
  intro b numbers
  have popped := keeps_popNumber Op.puts.name b numbers
  unfold Ensures at popped ⊢
  simp only [puts]
  cases acted : popNumber Op.puts.name b with
  | error stop c => simpa [acted] using popped
  | ok n c =>
    simp only [acted] at popped ⊢
    by_cases negative : n < 0
    · rw [if_pos negative]
      exact ⟨popped, by simp [Stop.Harmless, Trouble.cause]⟩
    rw [if_neg negative]
    by_cases short : (c.stack.take n.toInt.toNat).length < n.toInt.toNat
    · rw [if_pos short]
      exact ⟨popped, by simp [Stop.Harmless, Trouble.cause]⟩
    rw [if_neg short]
    have coded := keeps_takeCodes Op.puts.name n.toInt.toNat [] c popped
    unfold Ensures at coded
    cases taken : takeCodes Op.puts.name n.toInt.toNat [] c with
    | error stop d =>
      simp only [taken] at coded ⊢
      exact coded
    | ok codes d =>
      simp only [taken] at coded ⊢
      obtain ⟨⟨_, error⟩, out⟩ := d.out.writeCodes codes
      cases error with
      | none => exact coded
      | some e => exact ⟨coded, harmless_writing _ e⟩

theorem keeps_invert : KeepsNumbers invert := by
  intro b numbers
  have popped := keeps_popNumber Op.invert.name b numbers
  unfold Ensures at popped ⊢
  simp only [invert]
  cases acted : popNumber Op.invert.name b with
  | error stop c => simpa [acted] using popped
  | ok n c =>
    simp only [acted] at popped ⊢
    exact keeps_push (by trivial) c popped

theorem keeps_dup : KeepsNumbers dup := by
  intro b numbers
  unfold Ensures dup
  cases held : b.stack with
  | nil => exact ⟨numbers, by simp [Stop.Harmless, Trouble.cause]⟩
  | cons e rest =>
    obtain ⟨n, rfl, below⟩ := numbers.tail held
    exact List.forall_mem_cons.2 ⟨trivial, List.forall_mem_cons.2 ⟨trivial, below⟩⟩

theorem keeps_swap : KeepsNumbers swap := by
  intro b numbers
  unfold Ensures swap
  cases held : b.stack with
  | nil => exact ⟨numbers, by simp [Stop.Harmless, Trouble.cause]⟩
  | cons e rest =>
    cases rest with
    | nil => exact ⟨numbers, by simp [Stop.Harmless, Trouble.cause]⟩
    | cons f rest => exact numbers

theorem keeps_drop : KeepsNumbers drop := by
  intro b numbers
  unfold Ensures drop
  cases held : b.stack with
  | nil => exact ⟨numbers, by simp [Stop.Harmless, Trouble.cause]⟩
  | cons e rest =>
    obtain ⟨n, rfl, below⟩ := numbers.tail held
    exact below

theorem keeps_emit : KeepsNumbers emit := by
  intro b numbers
  unfold Ensures emit
  cases held : b.stack with
  | nil => exact ⟨numbers, by simp [Stop.Harmless, Trouble.cause]⟩
  | cons e rest =>
    obtain ⟨n, rfl, below⟩ := numbers.tail held
    exact keeps_write .emit _ _ below

def isBinary : Op → Bool
  | .invert | .dup | .swap | .drop | .emit | .puts | .cr => false
  | _ => true

theorem combine_numbers {op : Op} (two : isBinary op = true) (m n : Int32) :
    (∃ k, combine op (.number m) (.number n) = .ok (.number k)) ∨
      combine op (.number m) (.number n) = .error .divideByZero := by
  cases op with
  | invert | dup | swap | drop | emit | puts | cr => cases two
  | div | mod =>
    by_cases zero : n = 0
    · exact .inr (by simp [combine, arith, zero])
    · exact .inl ⟨_, by simp [combine, arith, zero]; rfl⟩
  | _ => exact .inl ⟨_, rfl⟩

theorem keeps_binary {op : Op} (two : isBinary op = true) : KeepsNumbers (binary op) := by
  intro b numbers
  unfold Ensures binary
  cases held : b.stack with
  | nil => exact ⟨numbers, by simp [Stop.Harmless, Trouble.cause]⟩
  | cons y below =>
    obtain ⟨n, rfl, others⟩ := numbers.tail held
    cases below with
    | nil => exact ⟨numbers, by simp [Stop.Harmless, Trouble.cause]⟩
    | cons x rest =>
      obtain ⟨number, below⟩ := List.forall_mem_cons.1 others
      cases x with
      | number m =>
        rcases combine_numbers two m n with ⟨k, done⟩ | zero
        · simp only [done]
          exact List.forall_mem_cons.2 ⟨trivial, below⟩
        · simp only [zero]
          exact ⟨below, by simp [Stop.Harmless, Trouble.cause]⟩
      | _ => exact number.elim

theorem perform_binary {op : Op} (two : isBinary op = true) : perform op = binary op := by
  cases op <;> first | rfl | cases two

theorem keeps_perform (op : Op) : KeepsNumbers (perform op) := by
  cases op with
  | invert => exact keeps_invert
  | dup => exact keeps_dup
  | swap => exact keeps_swap
  | drop => exact keeps_drop
  | emit => exact keeps_emit
  | puts => exact keeps_puts
  | cr => exact keeps_write .cr [Text.newline]
  | _ =>
    rw [perform_binary rfl]
    exact keeps_binary rfl

theorem keeps_execute {kind : Kind} (operation : kind.isOperation = true) :
    KeepsNumbers (execute kind) := by
  cases kind with
  | op o => exact keeps_perform o
  | _ => cases operation

theorem keeps_literal (text : Text) : KeepsNumbers (Interpreter.literal text) := by
  intro b numbers
  refine List.forall_mem_cons.2 ⟨trivial, ?_⟩
  intro e mem
  rw [List.reverseAux_eq, List.mem_append, List.mem_reverse] at mem
  rcases mem with code | below
  · obtain ⟨g, _, rfl⟩ := List.mem_map.1 code
    trivial
  · exact numbers e below

end Bench
end StackLang
