import StackLang.Command.Run
import StackLang.Proofs.Output.Aside
import StackLang.Proofs.Tree.Draft

/-! The log and the dumps are written aside. Where their devices take everything they cannot fail,
with one exception: a tree that is no document. -/
namespace StackLang

namespace Logger

/-- A report is the error itself and then some lines. -/
theorem report_keeps {P : Logger × Console → Prop} {l : Logger} {c : Console} {f : Failure}
    (tracing : Bool) (first : P (l.errorIf c (some f)))
    (log : ∀ (r : Logger × Console) (level : Text) (m : Message), P r → P (r.1.log r.2 level m)) :
    P (l.report c tracing f) := by
  let context := (f.firstPlace?.map Failure.Place.context).getD []
  simp only [report]
  generalize l.errorIf c (some f) = reported at first ⊢
  have second : P (if context = [] then reported else
      reported.1.log reported.2 [] { template := context }) := by
    split
    · exact first
    · exact log reported [] _ first
  by_cases traced : tracing = true ∧ f.trace ≠ []
  · rw [if_pos traced]
    exact log _ _ _ second
  · rw [if_neg traced]
    exact second

/-- The logger has worked aside, and its exit code is now `code`. -/
structure Kept (l : Logger) (c : Console) (code : Nat) (r : Logger × Console) : Prop where
  device : r.1.device = l.device
  code : r.1.exitCode = code
  console : Console.SameFirst c r.2

theorem Kept.trans {l : Logger} {c : Console} {code code' : Nat} {r r' : Logger × Console}
    (first : Kept l c code r) (second : Kept r.1 r.2 code' r') : Kept l c code' r' :=
  ⟨second.device.trans first.device, second.code, first.console.trans second.console⟩

section

variable {l : Logger} {c : Console} (aside : l.device ≠ some 0) (accepts : c.Accepts)

include aside accepts

theorem flush_kept : (l.flush c).1 = none ∧ Kept l c l.exitCode (l.flush c).2 := by
  unfold flush
  split
  · exact ⟨rfl, rfl, rfl, .refl accepts⟩
  · rename_i i device
    have other : i ≠ 0 := fun first => aside (first ▸ device)
    obtain ⟨answer, same⟩ := Console.write_aside accepts other l.buffer
    split
    · exact ⟨rfl, rfl, rfl, .refl accepts⟩
    · simp only [answer, if_pos]
      exact ⟨rfl, rfl, rfl, same⟩

theorem print_kept (level message : Text) :
    (l.print c level message).1 = none ∧ Kept l c l.exitCode (l.print c level message).2 := by
  obtain ⟨fine, device, code, same⟩ := flush_kept
    (l := { l with buffer := ended (l.buffer ++ label l.color level ++ message) }) aside accepts
  exact ⟨fine, device, code, same⟩

theorem log_kept (level : Text) (m : Message) : Kept l c l.exitCode (l.log c level m) := by
  obtain ⟨fine, kept⟩ := print_kept aside accepts level m.text
  unfold log
  generalize l.print c level m.text = printed at fine kept ⊢
  obtain ⟨error, l', c'⟩ := printed
  cases fine
  exact kept

theorem error_kept (m : Message) : Kept l c 1 (l.error c m) := by
  obtain ⟨-, kept⟩ := print_kept aside accepts (utf8 "ERROR") m.text
  exact ⟨kept.device, rfl, kept.console⟩

theorem errorIf_kept (f : Option Failure) :
    Kept l c (if f = none then l.exitCode else 1) (l.errorIf c f) := by
  cases f with
  | none => exact ⟨rfl, rfl, .refl accepts⟩
  | some f => exact error_kept aside accepts _

theorem report_kept (tracing : Bool) (f : Failure) : Kept l c 1 (l.report c tracing f) := by
  refine report_keeps (P := Kept l c 1) tracing (error_kept aside accepts _) ?_
  intro r level m kept
  have next := log_kept (kept.device ▸ aside) kept.console.there level m
  rw [kept.code] at next
  exact kept.trans next

end

end Logger

theorem writePieces_aside (ts : List Text) {o : Output} (only : o.leaves = [1])
    (accepts : o.console.Accepts) :
    (writePieces o ts).1 = none ∧ Output.Aside o (writePieces o ts).2 := by
  induction ts generalizing o with
  | nil => exact ⟨rfl, rfl, .refl accepts⟩
  | cons t ts ih =>
    obtain ⟨fine, leaves, console⟩ := Output.write_aside only (by decide) accepts t
    unfold writePieces
    generalize o.write t = written at fine leaves console ⊢
    obtain ⟨⟨taken, error⟩, p⟩ := written
    cases fine
    obtain ⟨fine, rest⟩ := ih (leaves.trans only) console.there
    exact ⟨fine, rest.leaves.trans leaves, console.trans rest.console⟩

theorem writeTokens_eq (o : Output) (ts : List Token) :
    writeTokens o ts = writePieces o (ts.map Token.line) := by
  unfold writeTokens
  induction ts generalizing o with
  | nil => rfl
  | cons t ts ih =>
    rw [List.map_cons, writeTokensBy, writePieces]
    simp only [ih]
    rfl

theorem writeTokens_aside (ts : List Token) {o : Output} (only : o.leaves = [1])
    (accepts : o.console.Accepts) :
    (writeTokens o ts).1 = none ∧ Output.Aside o (writeTokens o ts).2 := by
  rw [writeTokens_eq]
  exact writePieces_aside _ only accepts

/-- What keeps a tree from being written to a device that takes everything. -/
def treeFault (n : Node) : Option OutlineError :=
  match n.outline? with
  | none => some .hole
  | some doc => if doc.pieces.2 then none else some .notText

theorem writeTree_aside (n : Node) {o : Output} (only : o.leaves = [1])
    (accepts : o.console.Accepts) :
    (writeTree o n).1 = treeFault n ∧ Output.Aside o (writeTree o n).2 := by
  unfold writeTree treeFault
  rw [Node.document?_eq]
  cases n.outline? with
  | none => exact ⟨rfl, rfl, .refl accepts⟩
  | some doc =>
    obtain ⟨fine, aside⟩ := writePieces_aside doc.pieces.1 only accepts
    simp only
    generalize writePieces o doc.pieces.1 = written at fine aside ⊢
    obtain ⟨error, p⟩ := written
    cases fine
    exact ⟨rfl, aside⟩

def writeState (s : Interpreter) (out : Output) : Option WriteError × Output :=
  match s.dump? with
  | some t => ((out.write t).1.error, (out.write t).2)
  | none => (none, out)

theorem Command.dumpState_eq (c : Command) :
    c.dumpState = if c.settings.dumpState then
      (c.dumping (writeState c.session)).2.errorIf (c.dumping (writeState c.session)).1
    else c := rfl

theorem writeState_aside (s : Interpreter) {o : Output} (only : o.leaves = [1])
    (accepts : o.console.Accepts) :
    (writeState s o).1 = none ∧ Output.Aside o (writeState s o).2 := by
  unfold writeState
  cases s.dump? with
  | some t => exact Output.write_aside only (by decide) accepts t
  | none => exact ⟨rfl, rfl, .refl accepts⟩

end StackLang
