import StackLang.Proofs.Interpreter.Below
import StackLang.Proofs.Session.Typing

/-! Two sessions side by side. What writing, tracing and flushing keep of two outputs, programs keep
of two sessions. -/
namespace StackLang

namespace Output

/-- Flushing both gives the same error, and keeps the relation. -/
def Flushes (O : Output → Output → Prop) : Prop :=
  ∀ {o p : Output}, O o p → p.flush.1 = o.flush.1 ∧ O o.flush.2 p.flush.2

theorem flushes_pairedOn {leaves : List Nat} {C : Console → Console → Prop}
    (steady : Console.SteadyOn leaves C)
    (flush : ∀ {c d : Console}, C c d → ∀ i ∈ leaves, C (c.flush i).2 (d.flush i).2) :
    Flushes (PairedOn leaves C) := by
  have error {c d : Console} (related : C c d) {i : Nat} (leaf : i ∈ leaves) :
      (d.flush i).1 = (c.flush i).1 := by
    simp only [Console.flush, steady.device related leaf]
    split <;> rfl
  have each (rest : List Nat) (within : ∀ i ∈ rest, i ∈ leaves) {c d : Console}
      (related : C c d) : (flushEach d rest).1 = (flushEach c rest).1 ∧
        C (flushEach c rest).2 (flushEach d rest).2 := by
    induction rest generalizing c d with
    | nil => exact ⟨rfl, related⟩
    | cons i rest ih =>
      obtain ⟨leaf, later⟩ := List.forall_mem_cons.1 within
      obtain ⟨same, related'⟩ := ih later (flush related i leaf)
      refine ⟨?_, related'⟩
      simp only [flushEach, error related leaf, same]
  intro o p on
  obtain ⟨is, tally, console⟩ := o
  obtain ⟨js, tally', console'⟩ := p
  obtain ⟨rfl, same, count, related⟩ := on
  cases same
  cases count
  obtain ⟨same, related⟩ := each _ (fun _ leaf => leaf) related
  exact ⟨same, rfl, rfl, rfl, related⟩

end Output

namespace Interpreter

variable {O : Output → Output → Prop} {below : List Entity} {s t : Interpreter}

theorem Above.flushed (flushes : Output.Flushes O) (above : Above O below s t) :
    t.flush.1 = s.flush.1 ∧ Above O below s.flush.2 t.flush.2 := by
  obtain ⟨error, out⟩ := flushes above.bench.out
  exact ⟨error, ⟨above.bench.stack, out⟩, above.loops, above.words, above.depth, above.limit⟩

theorem Above.runTree (steady : Output.Steady O) (flushes : Output.Flushes O)
    (above : Above O [] s t) (n : Node) :
    (t.runTree n).1 = (s.runTree n).1 ∧ Above O [] (s.runTree n).2 (t.runTree n).2 := by
  obtain ⟨stops, above⟩ := above.runNode steady n
  obtain ⟨error, flushed⟩ := above.flushed flushes
  refine ⟨?_, flushed⟩
  rw [runTree_fst, runTree_fst, stops, error]

end Interpreter
end StackLang
