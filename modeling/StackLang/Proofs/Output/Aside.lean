import StackLang.Proofs.Output.Delivery

/-! What is written aside. Calls of the other devices do not change what the first one holds and
will answer; and where those take everything, whoever writes to them cannot fail. -/
namespace StackLang

namespace Console

def Accepts (c : Console) : Prop := ∀ i, i ≠ 0 → (c.device i).TakesAll

/-- The first device holds the same and will answer the same, and the others take everything. -/
structure SameFirst (c d : Console) : Prop where
  device : d.device 0 = c.device 0
  data : d.dataOf 0 = c.dataOf 0
  here : c.Accepts
  there : d.Accepts

namespace SameFirst

variable {c d e : Console}

theorem refl (accepts : c.Accepts) : SameFirst c c := ⟨rfl, rfl, accepts, accepts⟩

theorem symm (same : SameFirst c d) : SameFirst d c :=
  ⟨same.device.symm, same.data.symm, same.there, same.here⟩

theorem trans (first : SameFirst c d) (second : SameFirst d e) : SameFirst c e :=
  ⟨second.device.trans first.device, second.data.trans first.data, first.here, second.there⟩

theorem note_trace (accepts : c.Accepts) (line : TraceLine) : SameFirst c (c.note (.trace line)) :=
  ⟨rfl, dataOf_trace c line 0, accepts, accepts⟩

theorem call_first (same : SameFirst c d) (size : Nat) (event : Nat → Event) :
    SameFirst (c.call 0 size event).2 (d.call 0 size event).2 := by
  refine ⟨?_, ?_, fun i other => ?_, fun i other => ?_⟩
  · rw [device_call_self, device_call_self, same.device]
  · let e := event ((c.device 0).answer size).taken
    have noted : (d.note e).dataOf 0 = (c.note e).dataOf 0 := by
      rw [dataOf_note, dataOf_note, same.data]
    by_cases discards : (c.device 0).kind = .discard
    · simp only [call, same.device, if_pos discards]
      exact same.data
    · simp only [call, same.device, if_neg discards]
      exact noted
  · exact (same.here i other).later (later_call c 0 size event i)
  · exact (same.there i other).later (later_call d 0 size event i)

end SameFirst

theorem steadyOn_sameFirst : SteadyOn [0] SameFirst where
  device same i leaf := by
    cases List.mem_singleton.1 leaf
    exact same.device
  call same i leaf size event := by
    cases List.mem_singleton.1 leaf
    exact same.call_first size event
  trace same line := by
    refine ⟨?_, same.trans (.note_trace same.there line)⟩
    exact (SameFirst.note_trace same.here line).symm.trans same

/-- What is written to another device is taken, and the first one does not notice. -/
theorem write_aside {c : Console} (accepts : c.Accepts) {i : Nat} (other : i ≠ 0) (data : Text) :
    (c.write i data).1 = ⟨data.length, none⟩ ∧ SameFirst c (c.write i data).2 := by
  refine ⟨?_, ?_, ?_, accepts, fun j aside => ?_⟩
  · rw [write, call_answer, Device.answer_of_takesAll (accepts i other)]
  · exact device_call_other c other _ _
  · exact dataOf_call_other _ (fun _ => rfl) other.symm
  · exact (accepts j aside).later (later_call c i _ _ j)

theorem flush_first {c d : Console} (same : SameFirst c d) :
    SameFirst (c.flush 0).2 (d.flush 0).2 := by
  refine ⟨?_, ?_, fun i other => ?_, fun i other => ?_⟩
  · rw [device_flush_self, device_flush_self, same.device]
  · rw [dataOf_eq (flush_writes c 0), dataOf_eq (flush_writes d 0), same.data]
  · rw [device_flush_other c other.symm]
    exact same.here i other
  · rw [device_flush_other d other.symm]
    exact same.there i other

end Console

namespace Output

/-- From one output to the other all went well, and the first device did not notice. -/
structure Aside (o p : Output) : Prop where
  leaves : p.leaves = o.leaves
  console : Console.SameFirst o.console p.console

theorem write_aside {o : Output} {i : Nat} (only : o.leaves = [i]) (other : i ≠ 0)
    (accepts : o.console.Accepts) (data : Text) :
    (o.write data).1.error = none ∧ Aside o (o.write data).2 := by
  obtain ⟨leaves, tally, console⟩ := o
  cases only
  obtain ⟨answer, same⟩ := Console.write_aside accepts other data
  exact ⟨congrArg Written.error answer, rfl, same⟩

end Output
end StackLang
