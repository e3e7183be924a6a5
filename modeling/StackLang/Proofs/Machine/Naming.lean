import StackLang.Proofs.Machine.Requests

/-! A primitive that stops says which one it was. It breaks off without a word in one case only:
something is to be written that has no text. -/
namespace StackLang

namespace Bench

/-- However the action stops, it is with a fault of this operation. -/
abbrev Named {α : Type} (op : Text) (act : Action α) : Prop :=
  ∀ b, Ensures act b (fun _ _ => True) fun stop _ => ∃ trouble, stop = .fault ⟨op, trouble⟩

theorem Named.bind {α β : Type} {op : Text} {act : Action α} {next : α → Action β}
    (first : Named op act) (second : ∀ a, Named op (next a)) : Named op (act >>= next) :=
  fun b => (first b).bind fun a c _ => second a c

theorem named_fail {α : Type} (op : Text) (trouble : Trouble) :
    Named op (fail op trouble : Action α) := fun _ => ⟨trouble, rfl⟩

theorem named_popNumber (op : Text) : Named op (popNumber op) := by
  rintro ⟨stack, out⟩
  cases stack with
  | nil => exact ⟨_, rfl⟩
  | cons e rest =>
    cases e with
    | number n => trivial
    | _ => exact ⟨_, rfl⟩

theorem named_report (op : Text) (answer : Bench → Written × Output) :
    Named op fun b => report op b.stack (answer b) := by
  intro b
  unfold Ensures
  simp only
  generalize answer b = answered
  obtain ⟨⟨taken, error⟩, out⟩ := answered
  cases error with
  | none => trivial
  | some e => exact ⟨.writing e, rfl⟩

theorem named_invert : Named Op.invert.name invert := by
  rw [invert_eq]
  exact (named_popNumber _).bind fun n _ => trivial

theorem named_dup : Named Op.dup.name dup := by
  rintro ⟨stack, out⟩
  cases stack with
  | nil => exact ⟨_, rfl⟩
  | cons e rest => trivial

theorem named_drop : Named Op.drop.name drop := by
  rintro ⟨stack, out⟩
  cases stack with
  | nil => exact ⟨_, rfl⟩
  | cons e rest => trivial

theorem named_swap : Named Op.swap.name swap := by
  rintro ⟨stack, out⟩
  match stack with
  | [] | [_] => exact ⟨_, rfl⟩
  | _ :: _ :: _ => trivial

theorem named_binary (op : Op) : Named op.name (binary op) := by
  rintro ⟨stack, out⟩
  match stack with
  | [] | [_] => exact ⟨_, rfl⟩
  | y :: x :: rest =>
    unfold Ensures binary
    simp only
    cases combine op x y with
    | ok e => trivial
    | error trouble => exact ⟨trouble, rfl⟩

theorem named_takeCodes (op : Text) (n : Nat) (codes : List Int32) :
    Named op (takeCodes op n codes) := by
  induction n generalizing codes with
  | zero => exact fun _ => trivial
  | succ n ih =>
    rw [takeCodes_succ]
    refine (named_popNumber op).bind fun code => ?_
    by_cases valid : isCode code = true
    · rw [if_pos valid]
      exact ih (code :: codes)
    · rw [if_neg valid]
      exact named_fail op _

theorem named_spell (op : Text) (n : Int32) : Named op (spell op n) := by
  intro b
  have codes := ((named_takeCodes op n.toInt.toNat []).bind fun codes =>
    named_report op fun b => b.out.writeCodes codes) b
  unfold Ensures spell
  by_cases negative : n < 0
  · rw [if_pos negative]
    exact ⟨_, rfl⟩
  rw [if_neg negative]
  by_cases short : (b.stack.take n.toInt.toNat).length < n.toInt.toNat
  · rw [if_pos short]
    exact ⟨_, rfl⟩
  · rw [if_neg short]
    exact codes

theorem named_puts : Named Op.puts.name puts := by
  rw [puts_eq]
  exact (named_popNumber _).bind fun n => named_spell _ n

def Mute (b : Bench) : Prop := ∃ e rest, b.stack = e :: rest ∧ e.emitted? = none

theorem emit_stops (b : Bench) : Ensures emit b (fun _ _ => True) fun stop _ =>
    (∃ trouble, stop = .fault ⟨Op.emit.name, trouble⟩) ∨ stop = .broken ∧ b.Mute := by
  obtain ⟨stack, out⟩ := b
  cases stack with
  | nil => exact .inl ⟨_, rfl⟩
  | cons e rest =>
    cases emitted : e.emitted? with
    | some data =>
      have written := named_report Op.emit.name (fun b => b.out.write data) ⟨rest, out⟩
      have same : emit ⟨e :: rest, out⟩ = report Op.emit.name rest (out.write data) := by
        simp only [emit, emitted]
        rfl
      unfold Ensures
      rw [same]
      exact Ensures.mono written (fun _ _ _ => trivial) fun _ _ named => .inl named
    | none =>
      unfold Ensures emit
      simp only [emitted]
      exact .inr ⟨trivial, e, rest, rfl, emitted⟩

/-- An operation that stops is named in its fault, whatever kind it is of and whatever it finds. -/
theorem execute_stops (kind : Kind) (b : Bench) :
    Ensures (execute kind) b (fun _ _ => True) fun stop _ =>
      (∃ trouble, stop = .fault ⟨kind.title, trouble⟩) ∨
        stop = .broken ∧ kind = .op .emit ∧ b.Mute := by
  have named {act : Action Unit} {op : Text} (named : Named op act) :
      Ensures act b (fun _ _ => True) fun stop _ =>
        (∃ trouble, stop = .fault ⟨op, trouble⟩) ∨ stop = .broken ∧ kind = .op .emit ∧ b.Mute :=
    (named b).mono (fun _ _ _ => trivial) fun _ _ named => .inl named
  cases kind with
  | op o =>
    cases o with
    | invert => exact named named_invert
    | dup => exact named named_dup
    | swap => exact named named_swap
    | drop => exact named named_drop
    | emit =>
      refine (emit_stops b).mono (fun _ _ _ => trivial) fun _ _ stops => stops.imp id ?_
      exact fun broken => ⟨broken.1, rfl, broken.2⟩
    | puts => exact named named_puts
    | cr => exact named (named_report _ fun b => b.out.write [Text.newline])
    | eq => exact named (named_binary .eq)
    | same => exact named (named_binary .same)
    | _ => exact named (named_binary _)
  | _ => exact named (named_fail _ _)

end Bench
end StackLang
