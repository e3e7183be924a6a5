import StackLang.Proofs.Output.Calls

/-! Flushing. It changes nothing that a device has taken in, and calls do not change how it is
answered; so where it changes nothing else, a flush more or less cannot be told from what is
written. -/
namespace StackLang

/-- A call of a device, and not a line of the trace. -/
def Event.isCall : Event → Bool
  | .trace _ => false
  | _ => true

def Event.isWrite : Event → Bool
  | .trace _ | .flush _ => false
  | _ => true

namespace Console

/-- Only a device that discards may be beyond the last. -/
theorem inside_of_keeps {c : Console} {i : Nat} (keeps : (c.device i).kind ≠ .discard) :
    i < c.devices.length := by
  refine Nat.lt_of_not_le fun outside => keeps ?_
  rw [device, List.getD_eq_getElem?_getD, List.getElem?_eq_none outside]
  rfl

theorem device_set_self {c : Console} {i : Nat} (keeps : (c.device i).kind ≠ .discard) (d : Device)
    (events : List Event) : (Console.mk (c.devices.set i d) events).device i = d := by
  rw [device, List.getD_eq_getElem?_getD, List.getElem?_set_self (inside_of_keeps keeps)]
  rfl

theorem device_set_other (c : Console) {i j : Nat} (other : i ≠ j) (d : Device)
    (events : List Event) : (Console.mk (c.devices.set i d) events).device j = c.device j := by
  simp only [device, List.getD_eq_getElem?_getD, List.getElem?_set_ne other]

theorem device_call_self (c : Console) (i size : Nat) (event : Nat → Event) :
    (c.call i size event).2.device i =
      if (c.device i).kind = .discard then c.device i else (c.device i).next := by
  by_cases discards : (c.device i).kind = .discard
  · simp only [call, if_pos discards]
  · simp only [call, if_neg discards]
    exact device_set_self discards _ _

theorem device_call_other (c : Console) {i j : Nat} (other : i ≠ j) (size : Nat)
    (event : Nat → Event) : (c.call i size event).2.device j = c.device j := by
  by_cases discards : (c.device i).kind = .discard
  · simp only [call, if_pos discards]
  · simp only [call, if_neg discards]
    exact device_set_other c other _ _

theorem device_call (c : Console) (i size : Nat) (event : Nat → Event) (j : Nat) :
    (c.call i size event).2.device j = c.device j ∨
      (c.call i size event).2.device j = (c.device j).next := by
  by_cases same : i = j
  · subst same
    rw [device_call_self]
    split
    · exact .inl rfl
    · exact .inr rfl
  · exact .inl (device_call_other c same size event)

theorem keeps_of_canFlush {d : Device} (can : d.canFlush = true) : d.kind ≠ .discard := by
  intro discards
  rw [Device.canFlush, discards] at can
  cases can

theorem device_flush_self (c : Console) (i : Nat) :
    (c.flush i).2.device i = (c.device i).flushed := by
  by_cases can : (c.device i).canFlush = true
  · simp only [flush, if_pos can]
    exact device_set_self (keeps_of_canFlush can) _ _
  · simp only [flush, Device.flushed, if_neg can]

theorem device_flush_other (c : Console) {i j : Nat} (other : i ≠ j) :
    (c.flush i).2.device j = c.device j := by
  by_cases can : (c.device i).canFlush = true
  · simp only [flush, if_pos can]
    exact device_set_other c other _ _
  · simp only [flush, if_neg can]

theorem flush_error (c : Console) (i : Nat) : (c.flush i).1 = (c.device i).flushError := by
  by_cases can : (c.device i).canFlush = true
  · simp only [flush, if_pos can]
  · simp only [flush, Device.flushError, if_neg can]

end Console

/-- Flushing the device succeeds, and leaves it as it is. -/
structure Device.FlushesFreely (d : Device) : Prop where
  error : d.flushError = none
  same : d.flushed = d

theorem Device.FlushesFreely.next {d : Device} (free : d.FlushesFreely) :
    d.next.FlushesFreely := by
  obtain ⟨kind, script, flushes⟩ := d
  obtain ⟨error, same⟩ := free
  refine ⟨error, ?_⟩
  unfold flushed at same ⊢
  split at same
  · rename_i can
    injection same with _ _ rest
    exact (if_pos can).trans (congrArg (Device.mk kind script.tail) rest)
  · rename_i cannot
    exact if_neg cannot

namespace Console

/-- The same bytes were offered to the same devices, and some of these flush freely. -/
structure SameWrites (free : List Nat) (c d : Console) : Prop where
  alike : Alike Event.isWrite c d
  freely : ∀ i ∈ free, (c.device i).FlushesFreely

theorem steady_sameWrites (free : List Nat) : Steady (SameWrites free) where
  devices same := same.alike.devices
  call {c _} same i size event := by
    refine ⟨(steady_alike fun _ => rfl).call same.alike i size event, fun j mem => ?_⟩
    rcases device_call c i size event j with still | next
    · exact still ▸ same.freely j mem
    · exact next ▸ (same.freely j mem).next
  trace same line := by
    obtain ⟨left, right⟩ := (steady_alike fun _ => rfl).trace same.alike line
    exact ⟨⟨left, same.freely⟩, ⟨right, same.freely⟩⟩

theorem dataOf_eq {c d : Console}
    (same : d.events.filter Event.isWrite = c.events.filter Event.isWrite) (i : Nat) :
    d.dataOf i = c.dataOf i := by
  have writes (events : List Event) : (events.filter (·.device? == some i)).flatMap Event.data =
      ((events.filter Event.isWrite).filter (·.device? == some i)).flatMap Event.data := by
    induction events with
    | nil => rfl
    | cons e events ih =>
      by_cases write : e.isWrite = true
      · rw [List.filter_cons_of_pos write, List.filter_cons, List.filter_cons]
        split
        · rw [List.flatMap_cons, List.flatMap_cons, ih]
        · exact ih
      · have nothing : e.data = [] := by cases e <;> first | rfl | exact absurd rfl write
        rw [List.filter_cons_of_neg write, List.filter_cons]
        split
        · rw [List.flatMap_cons, nothing, List.nil_append, ih]
        · exact ih
  unfold dataOf eventsOf
  rw [writes, writes c.events.reverse]
  simp only [List.filter_reverse, same]

theorem flush_writes (c : Console) (i : Nat) :
    (c.flush i).2.events.filter Event.isWrite = c.events.filter Event.isWrite := by
  by_cases can : (c.device i).canFlush = true
  · simp only [flush, if_pos can]
    rfl
  · simp only [flush, if_neg can]

theorem flush_alike {c d : Console} (devices : d.devices = c.devices) (i : Nat) :
    (d.flush i).1 = (c.flush i).1 ∧ (d.flush i).2.devices = (c.flush i).2.devices := by
  have same := device_eq devices i
  by_cases can : (c.device i).canFlush = true
  · simp only [flush, same, if_pos can, devices, and_self]
  · simp only [flush, same, if_neg can, devices, and_self]

theorem flush_devices {c : Console} {i : Nat} (free : (c.device i).FlushesFreely) :
    (c.flush i).2.devices = c.devices := by
  by_cases can : (c.device i).canFlush = true
  · have inside := inside_of_keeps (keeps_of_canFlush can)
    have here : c.device i = c.devices[i] := by
      rw [device, List.getD_eq_getElem?_getD, List.getElem?_eq_getElem inside, Option.getD_some]
    simp only [flush, if_pos can, free.same]
    rw [here, List.set_getElem_self]
  · simp only [flush, if_neg can]

end Console

namespace Output

theorem flushEach_writes (c : Console) (leaves : List Nat) :
    (flushEach c leaves).2.events.filter Event.isWrite = c.events.filter Event.isWrite := by
  induction leaves generalizing c with
  | nil => rfl
  | cons i rest ih => exact (ih (c.flush i).2).trans (Console.flush_writes c i)

/-- Flushes are answered by the devices, whatever has happened before. -/
theorem flushEach_alike {c d : Console} (devices : d.devices = c.devices) (leaves : List Nat) :
    (flushEach d leaves).1 = (flushEach c leaves).1 ∧
      (flushEach d leaves).2.devices = (flushEach c leaves).2.devices := by
  induction leaves generalizing c d with
  | nil => exact ⟨rfl, devices⟩
  | cons i rest ih =>
    obtain ⟨error, after⟩ := Console.flush_alike devices i
    obtain ⟨errors, last⟩ := ih after
    refine ⟨?_, last⟩
    simp only [flushEach, error, errors]

theorem flush_alike {o p : Output} (leaves : p.leaves = o.leaves)
    (devices : p.console.devices = o.console.devices) :
    p.flush.1 = o.flush.1 ∧ p.flush.2.console.devices = o.flush.2.console.devices := by
  simp only [flush, leaves]
  exact flushEach_alike devices o.leaves

theorem flushEach_free {c : Console} {leaves : List Nat}
    (free : ∀ i ∈ leaves, (c.device i).FlushesFreely) :
    (flushEach c leaves).1 = none ∧ (flushEach c leaves).2.devices = c.devices := by
  induction leaves generalizing c with
  | nil => exact ⟨rfl, rfl⟩
  | cons i rest ih =>
    obtain ⟨here, later⟩ := List.forall_mem_cons.1 free
    have devices := Console.flush_devices here
    have same := Console.device_eq devices
    obtain ⟨error, others⟩ := ih fun j mem => same j ▸ later j mem
    refine ⟨?_, others.trans devices⟩
    simp only [flushEach, Console.flush_error, here.error, error, Option.or_none]

abbrev Watched (leaves : List Nat) : Output → Output → Prop :=
  PairedOn leaves (Console.SameWrites leaves)

theorem steady_watched (leaves : List Nat) : Steady (Watched leaves) :=
  steady_pairedOn ((Console.steady_sameWrites leaves).on leaves)

end Output
end StackLang
