import StackLang.Proofs.Output.Delivery

/-! What a console records. A request becomes calls of the devices of the output, and every call of
a device that keeps anything becomes one event; so what calls keep, requests keep. -/
namespace StackLang

namespace Event

def offered : Event → Option (Nat × Nat)
  | .write i data _ => some (i, data.length)
  | .byte i _ _ => some (i, 1)
  | .character i code _ => some (i, (encodeCode code).length)
  | .trace _ | .flush _ => none

theorem isWrite_of_offered {e : Event} {offer : Nat × Nat} (offers : e.offered = some offer) :
    e.isWrite = true := by
  cases e with
  | trace | flush => cases offers
  | write | byte | character => rfl

theorem device?_of_offered {e : Event} {i size : Nat} (offers : e.offered = some (i, size)) :
    e.device? = some i := by
  cases e with
  | trace | flush => cases offers
  | write | byte | character =>
    cases offers
    rfl

end Event

namespace Console

/-- What happened from `c` to `d` is all of this kind. -/
def Since (kind : Event → Bool) (c d : Console) : Prop :=
  ∃ log, (∀ e ∈ log, kind e = true) ∧ d.events = log ++ c.events

section

variable {kind : Event → Bool} {c d : Console}

theorem Since.refl (kind : Event → Bool) (c : Console) : Since kind c c :=
  ⟨[], fun _ mem => absurd mem List.not_mem_nil, rfl⟩

theorem Since.trans {e : Console} (first : Since kind c d) (second : Since kind d e) :
    Since kind c e := by
  obtain ⟨log, all, events⟩ := first
  obtain ⟨later, all', events'⟩ := second
  refine ⟨later ++ log, fun e mem => ?_, by rw [events', events, List.append_assoc]⟩
  rcases List.mem_append.1 mem with here | there
  · exact all' e here
  · exact all e there

theorem Since.note (since : Since kind c d) {e : Event} (holds : kind e = true) :
    Since kind c (d.note e) := by
  obtain ⟨log, all, events⟩ := since
  refine ⟨e :: log, List.forall_mem_cons.2 ⟨holds, all⟩, ?_⟩
  exact congrArg (e :: ·) events

theorem Since.call (since : Since kind c d) (i size : Nat) {event : Nat → Event}
    (holds : ∀ n, kind (event n) = true) : Since kind c (d.call i size event).2 := by
  have noted := since.note (holds ((d.device i).answer size).taken)
  unfold Console.call
  by_cases discards : (d.device i).kind = .discard
  · rw [if_pos discards]
    exact since
  · rw [if_neg discards]
    exact noted

end

/-- Calls of these devices keep `P` as long as they are answered without an error, and leave `Q`
however they are answered. -/
structure Carries (leaves : List Nat) (P Q : Console → Prop) : Prop where
  weaker {c : Console} (holds : P c) : Q c
  fine {c : Console} {i size : Nat} {event : Nat → Event} (holds : P c) (leaf : i ∈ leaves)
    (offers : ∀ n, (event n).offered = some (i, size))
    (answer : ((c.device i).answer size).error = none) : P (c.call i size event).2
  failed {c : Console} {i size : Nat} {event : Nat → Event} (holds : P c) (leaf : i ∈ leaves)
    (offers : ∀ n, (event n).offered = some (i, size)) : Q (c.call i size event).2

theorem Carries.always {leaves : List Nat} {P : Console → Prop}
    (call : ∀ {c : Console} {i size : Nat} {event : Nat → Event}, P c → i ∈ leaves →
      (∀ n, (event n).offered = some (i, size)) → P (c.call i size event).2) :
    Carries leaves P P :=
  ⟨id, fun holds leaf offers _ => call holds leaf offers, fun holds leaf offers =>
    call holds leaf offers⟩

def Carried {σ : Type} (P Q : σ → Prop) (r : Written × σ) : Prop :=
  (r.1.error = none → P r.2) ∧ Q r.2

theorem Carries.call {leaves : List Nat} {P Q : Console → Prop} (carries : Carries leaves P Q)
    {c : Console} (holds : P c) {i size : Nat} (leaf : i ∈ leaves) (event : Nat → Event)
    (offers : ∀ n, (event n).offered = some (i, size)) : Carried P Q (c.call i size event) := by
  refine ⟨fun fine => ?_, carries.failed holds leaf offers⟩
  rw [call_answer] at fine
  exact carries.fine holds leaf offers fine

end Console

namespace Output

open Console (Carried Carries)

variable {leaves : List Nat} {P Q : Console → Prop}

theorem carried_writeEach (carries : Carries leaves P Q) (data : Text) (rest : List Nat)
    (within : ∀ i ∈ rest, i ∈ leaves) {c : Console} (holds : P c) :
    Carried P Q (writeEach c data rest) := by
  induction rest generalizing c with
  | nil => exact ⟨fun _ => holds, carries.weaker holds⟩
  | cons i rest ih =>
    obtain ⟨leaf, later⟩ := List.forall_mem_cons.1 within
    have first : Carried P Q (c.write i data) := carries.call holds leaf _ fun _ => rfl
    unfold writeEach
    generalize c.write i data = called at first ⊢
    obtain ⟨⟨taken, error⟩, d⟩ := called
    cases error with
    | some e => exact ⟨(Option.some_ne_none e).elim, first.2⟩
    | none =>
      by_cases whole : taken = data.length
      · simp only [if_pos whole]
        exact ih later (first.1 rfl)
      · simp only [if_neg whole]
        exact ⟨(Option.some_ne_none _).elim, first.2⟩

theorem carried_write {o : Output} (carries : Carries o.leaves P Q) (holds : P o.console)
    (data : Text) : Carried (fun p => P p.console) (fun p => Q p.console) (o.write data) := by
  have each := carried_writeEach carries data o.leaves (fun _ leaf => leaf) holds
  obtain ⟨is, tally, console⟩ := o
  rcases is with _ | ⟨i, _ | ⟨j, rest⟩⟩
  · exact each
  · exact carries.call holds List.mem_cons_self (.write i data) fun _ => rfl
  · exact each

theorem leaves_write (o : Output) (data : Text) : (o.write data).2.leaves = o.leaves := rfl

theorem leaves_writeCode (o : Output) (code : Int32) : (o.writeCode code).2.leaves = o.leaves := by
  unfold writeCode
  split
  · rfl
  · split <;> rfl

theorem carried_writeCode {o : Output} (carries : Carries o.leaves P Q) (holds : P o.console)
    (code : Int32) :
    Carried (fun p => P p.console) (fun p => Q p.console) (o.writeCode code) := by
  unfold writeCode
  split
  · exact carried_write carries holds _
  · rename_i i found
    have leaf : i ∈ o.leaves := leaves_of_characterDevice? found ▸ List.mem_cons_self
    split
    · exact carries.call holds leaf (.byte i code.toUInt32.toUInt8) fun _ => rfl
    · exact carries.call holds leaf (.character i code) fun _ => rfl

theorem carried_writeCodesAfter {o : Output} (carries : Carries o.leaves P Q)
    (holds : P o.console) (n : Nat) (codes : List Int32) :
    Carried (fun p => P p.console) (fun p => Q p.console) (o.writeCodesAfter n codes) := by
  induction codes generalizing o n with
  | nil => exact ⟨fun _ => holds, carries.weaker holds⟩
  | cons code rest ih =>
    have first := carried_writeCode carries holds code
    have same := leaves_writeCode o code
    unfold writeCodesAfter
    generalize o.writeCode code = written at first same ⊢
    obtain ⟨⟨k, error⟩, p⟩ := written
    cases error with
    | some e => exact ⟨(Option.some_ne_none e).elim, first.2⟩
    | none => exact ih (same ▸ carries) (first.1 rfl) (n + k)

theorem carried_serve {o : Output} (carries : Carries o.leaves P Q) (holds : P o.console)
    (r : Request) : Carried (fun p => P p.console) (fun p => Q p.console) (o.serve r) := by
  cases r with
  | text data => exact carried_write carries holds data
  | codes cs => exact carried_writeCodesAfter carries holds 0 cs

theorem leaves_serve (o : Output) (r : Request) : (o.serve r).2.leaves = o.leaves := by
  have after (n : Nat) (codes : List Int32) (o : Output) :
      (o.writeCodesAfter n codes).2.leaves = o.leaves := by
    induction codes generalizing o n with
    | nil => rfl
    | cons code rest ih =>
      have same := leaves_writeCode o code
      unfold writeCodesAfter
      generalize o.writeCode code = written at same ⊢
      obtain ⟨⟨k, error⟩, p⟩ := written
      cases error with
      | some e => exact same
      | none => exact (ih (n + k) p).trans same
  cases r with
  | text data => exact leaves_write o data
  | codes cs => exact after 0 cs o

theorem flushEach_events (c : Console) (leaves : List Nat) :
    (flushEach c leaves).2.events =
      ((leaves.filter fun i => (c.device i).canFlush).map .flush).reverse ++ c.events := by
  induction leaves generalizing c with
  | nil => rfl
  | cons i rest ih =>
    have later := ih (c.flush i).2
    have same (j : Nat) : ((c.flush i).2.device j).canFlush = (c.device j).canFlush := by
      rw [Device.canFlush, Device.canFlush, (Console.later_flush c i j).kind]
    simp only [same] at later
    simp only [flushEach, later]
    by_cases can : (c.device i).canFlush = true
    · simp [Console.flush, can]
    · simp [Console.flush, can]

end Output

namespace Device

/-- The answer to a flush behind `n` others. -/
def flushAnswer (d : Device) (n : Nat) : Option WriteError :=
  if d.canFlush then (d.flushes.getD n none).map .device else none

def flushedTimes (d : Device) (n : Nat) : Device :=
  if d.canFlush then { d with flushes := d.flushes.drop n } else d

theorem flushAnswer_zero (d : Device) : d.flushAnswer 0 = d.flushError := by
  rw [flushAnswer, flushError, List.getD_eq_getElem?_getD, List.headD_eq_head?_getD,
    List.head?_eq_getElem?]

theorem flushAnswer_flushed (d : Device) (n : Nat) :
    d.flushed.flushAnswer n = d.flushAnswer (n + 1) := by
  by_cases can : d.canFlush = true
  · have still : ({ d with flushes := d.flushes.tail } : Device).canFlush = true := can
    simp only [flushed, flushAnswer, if_pos can, if_pos still, List.getD_eq_getElem?_getD,
      List.getElem?_tail]
  · simp only [flushed, flushAnswer, if_neg can]

theorem flushedTimes_zero (d : Device) : d.flushedTimes 0 = d := by
  unfold flushedTimes
  split <;> rfl

theorem flushedTimes_flushed (d : Device) (n : Nat) :
    d.flushed.flushedTimes n = d.flushedTimes (n + 1) := by
  by_cases can : d.canFlush = true
  · have still : ({ d with flushes := d.flushes.tail } : Device).canFlush = true := can
    simp only [flushed, flushedTimes, if_pos can, if_pos still, List.drop_tail]
  · simp only [flushed, flushedTimes, if_neg can]

end Device

/-- The first error that flushing these devices in order gives. Who is listed again gives the next
of its answers. -/
def Console.flushFailure (c : Console) (leaves : List Nat) : Option WriteError :=
  leaves.zipIdx.findSome? fun (i, k) => (c.device i).flushAnswer ((leaves.take k).count i)

namespace Output

theorem flushEach_error (c : Console) (leaves : List Nat) :
    (flushEach c leaves).1 = c.flushFailure leaves := by
  induction leaves generalizing c with
  | nil => rfl
  | cons i rest ih =>
    -- a flush of `i` uses up one of its own answers, and none of any other device
    have next (j n : Nat) : ((c.flush i).2.device j).flushAnswer n =
        (c.device j).flushAnswer (n + if i = j then 1 else 0) := by
      by_cases same : i = j
      · subst same
        rw [Console.device_flush_self, Device.flushAnswer_flushed, if_pos rfl]
      · rw [Console.device_flush_other c same, if_neg same, Nat.add_zero]
    simp only [flushEach, ih, Console.flush_error, Console.flushFailure, List.zipIdx_cons,
      List.findSome?_cons, List.take_zero, List.count_nil, Device.flushAnswer_zero,
      List.zipIdx_succ, List.findSome?_map, next]
    cases (c.device i).flushError with
    | some e => rfl
    | none =>
      refine congrArg (rest.zipIdx.findSome? ·) (funext fun p => ?_)
      cases p with
      | mk j k => simp [List.count_cons]

theorem flushEach_device (c : Console) (leaves : List Nat) (i : Nat) :
    (flushEach c leaves).2.device i = (c.device i).flushedTimes (leaves.count i) := by
  induction leaves generalizing c with
  | nil => exact (Device.flushedTimes_zero _).symm
  | cons j rest ih =>
    simp only [flushEach, ih]
    by_cases same : j = i
    · subst same
      rw [Console.device_flush_self, Device.flushedTimes_flushed, List.count_cons_self]
    · rw [Console.device_flush_other c same, List.count_cons_of_ne same]

end Output
end StackLang
