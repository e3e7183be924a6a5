import StackLang.Proofs.Output.Events

/-! How devices have answered. A device is where its calls have brought it, so from what it was
offered one can tell how it has answered each time; and what is offered in one go after the other is
taken whole if each part of it is. -/
namespace StackLang

namespace Device

/-- The device `e` is where `n` writes have brought `d`, however often it was flushed. -/
structure After (d : Device) (n : Nat) (e : Device) : Prop where
  kind : e.kind = d.kind
  script : e.script = d.script.drop n

/-- Offers of these sizes are taken whole and without an error, one after the other. -/
def InFull : Device → List Nat → Prop
  | _, [] => True
  | d, size :: rest => d.answer size = ⟨size, none⟩ ∧ InFull d.next rest

theorem After.refl (d : Device) : d.After 0 d := ⟨rfl, rfl⟩

theorem after_next (d : Device) : d.After 1 d.next := ⟨rfl, List.drop_one.symm⟩

theorem after_flushed (d : Device) : d.After 0 d.flushed := by
  unfold flushed
  split <;> exact ⟨rfl, rfl⟩

theorem After.trans {d e f : Device} {m n : Nat} (first : d.After m e) (second : e.After n f) :
    d.After (m + n) f := by
  refine ⟨second.kind.trans first.kind, ?_⟩
  rw [second.script, first.script, List.drop_drop]

theorem After.later {d e : Device} {n : Nat} (after : d.After n e) : d.Later e :=
  ⟨after.kind, after.script ▸ List.drop_suffix n d.script⟩

theorem After.inFull {d e : Device} (after : d.After 0 e) (sizes : List Nat) :
    e.InFull sizes ↔ d.InFull sizes := by
  induction sizes generalizing d e with
  | nil => exact Iff.rfl
  | cons size sizes ih =>
    have same : e.script = d.script := after.script
    have answer : e.answer size = d.answer size := by
      rw [answer, answer, after.kind, same]
    have next : d.next.After 0 e.next := ⟨after.kind, congrArg List.tail same⟩
    rw [InFull, InFull, answer, ih next]

theorem inFull_append {d e : Device} {sizes more : List Nat} (after : d.After sizes.length e) :
    d.InFull (sizes ++ more) ↔ d.InFull sizes ∧ e.InFull more := by
  induction sizes generalizing d with
  | nil =>
    rw [List.nil_append, after.inFull, InFull, true_and]
  | cons size sizes ih =>
    have rest : d.next.After sizes.length e := by
      refine ⟨after.kind, ?_⟩
      rw [after.script, next, List.drop_tail]
      rfl
    rw [List.cons_append, InFull, InFull, ih rest, and_assoc]

theorem answer_discard {d : Device} (discards : d.kind = .discard) (size : Nat) :
    d.answer size = ⟨size, none⟩ := by
  rw [answer, discards]

end Device

namespace Console

def offers (c : Console) (i : Nat) : List Nat :=
  c.events.reverse.filterMap fun e => e.offered.bind fun (j, size) =>
    if j = i then some size else none

/-- Since `c`, all that a device was offered has been taken whole and without an error. -/
def TookAll (c d : Console) (i : Nat) : Prop :=
  ∃ sizes, d.offers i = c.offers i ++ sizes ∧ (c.device i).InFull sizes

structure Heard (c d : Console) (i : Nat) (sizes : List Nat) : Prop where
  offers : d.offers i = c.offers i ++ sizes
  device : (c.device i).After sizes.length (d.device i)

def Goes (c d : Console) : Prop := ∀ i, ∃ sizes, Heard c d i sizes

/-- Since `c`, devices have been called, and all that they were offered has been taken. -/
def GoesWell (c d : Console) : Prop := ∀ i, ∃ sizes, Heard c d i sizes ∧ (c.device i).InFull sizes

def Fails (c d : Console) (i : Nat) : Prop :=
  ∃ sizes, Heard c d i sizes ∧ ¬ (c.device i).InFull sizes

variable {c d e : Console} {i : Nat}

theorem offers_note (c : Console) (e : Event) (i : Nat) :
    (c.note e).offers i = c.offers i ++ (e.offered.bind fun (j, size) =>
      if j = i then some size else none).toList := by
  simp only [offers, note, List.reverse_cons, List.filterMap_append, List.filterMap_cons,
    List.filterMap_nil]
  split <;> rename_i found <;> simp [found]

namespace Heard

theorem refl (c : Console) (i : Nat) : Heard c c i [] := ⟨(List.append_nil _).symm, .refl _⟩

theorem trans {sizes more : List Nat} (first : Heard c d i sizes) (second : Heard d e i more) :
    Heard c e i (sizes ++ more) := by
  refine ⟨?_, ?_⟩
  · rw [second.offers, first.offers, List.append_assoc]
  · rw [List.length_append]
    exact first.device.trans second.device

theorem inFull {sizes more : List Nat} (first : Heard c d i sizes) :
    (c.device i).InFull (sizes ++ more) ↔ (c.device i).InFull sizes ∧ (d.device i).InFull more :=
  Device.inFull_append first.device

theorem tookAll {sizes : List Nat} (heard : Heard c d i sizes) :
    TookAll c d i ↔ (c.device i).InFull sizes := by
  constructor
  · rintro ⟨others, offers, full⟩
    rw [heard.offers] at offers
    rw [List.append_cancel_left offers]
    exact full
  · exact fun full => ⟨sizes, heard.offers, full⟩

end Heard

theorem Goes.refl (c : Console) : Goes c c := fun i => ⟨[], .refl c i⟩

theorem Goes.trans (first : Goes c d) (second : Goes d e) : Goes c e := by
  intro i
  obtain ⟨sizes, heard⟩ := first i
  obtain ⟨more, later⟩ := second i
  exact ⟨_, heard.trans later⟩

theorem Goes.honest (goes : Goes c d) (honest : ∀ i, (c.device i).Honest) :
    ∀ i, (d.device i).Honest := by
  intro i
  obtain ⟨sizes, heard⟩ := goes i
  exact (honest i).later heard.device.later

theorem GoesWell.goes (well : GoesWell c d) : Goes c d := by
  intro i
  obtain ⟨sizes, heard, -⟩ := well i
  exact ⟨sizes, heard⟩

theorem GoesWell.refl (c : Console) : GoesWell c c := fun i => ⟨[], .refl c i, trivial⟩

theorem GoesWell.trans (first : GoesWell c d) (second : GoesWell d e) : GoesWell c e := by
  intro i
  obtain ⟨sizes, heard, full⟩ := first i
  obtain ⟨more, later, also⟩ := second i
  exact ⟨_, heard.trans later, heard.inFull.2 ⟨full, also⟩⟩

theorem Fails.goesOn (fails : Fails c d i) (later : Goes d e) : Fails c e i := by
  obtain ⟨sizes, heard, short⟩ := fails
  obtain ⟨more, later⟩ := later i
  exact ⟨_, heard.trans later, fun full => short (heard.inFull.1 full).1⟩

theorem GoesWell.tookAll (well : GoesWell d e) (before : Goes c d) :
    TookAll c e i ↔ TookAll c d i := by
  obtain ⟨sizes, heard⟩ := before i
  obtain ⟨more, later, full⟩ := well i
  rw [(heard.trans later).tookAll, heard.tookAll, heard.inFull]
  exact ⟨And.left, fun took => ⟨took, full⟩⟩

theorem Fails.not_tookAll (fails : Fails d e i) (before : Goes c d) : ¬ TookAll c e i := by
  obtain ⟨sizes, heard⟩ := before i
  obtain ⟨more, later, short⟩ := fails
  rw [(heard.trans later).tookAll, heard.inFull]
  exact fun took => short took.2

theorem heard_note (c : Console) {e : Event} (silent : e.offered = none) (i : Nat) :
    Heard c (c.note e) i [] := by
  refine ⟨?_, .refl _⟩
  rw [offers_note, silent]
  rfl

theorem goesWell_note (c : Console) {e : Event} (silent : e.offered = none) :
    GoesWell c (c.note e) := fun i => ⟨[], heard_note c silent i, trivial⟩

section

variable {size : Nat} {event : Nat → Event} (offers : ∀ n, (event n).offered = some (i, size))

include offers

theorem heard_call_self (keeps : (c.device i).kind ≠ .discard) :
    Heard c (c.call i size event).2 i [size] := by
  have noted := offers_note c (event ((c.device i).answer size).taken) i
  simp only [offers, Option.bind_some, if_true] at noted
  refine ⟨?_, ?_⟩
  · rw [call]
    simp only [if_neg keeps]
    exact noted
  · rw [device_call_self, if_neg keeps]
    exact Device.after_next _

theorem heard_call_other {j : Nat} (other : j ≠ i) : Heard c (c.call i size event).2 j [] := by
  refine ⟨?_, by rw [device_call_other c other.symm]; exact .refl _⟩
  have noted := offers_note c (event ((c.device i).answer size).taken) j
  simp only [offers, Option.bind_some, if_neg other.symm] at noted
  rw [call]
  split
  · exact (List.append_nil _).symm
  · exact noted

theorem goes_call (c : Console) : Goes c (c.call i size event).2 := by
  intro j
  by_cases same : j = i
  · subst same
    by_cases discards : (c.device j).kind = .discard
    · rw [call, if_pos discards]
      exact ⟨[], .refl c j⟩
    · exact ⟨_, heard_call_self offers discards⟩
  · exact ⟨_, heard_call_other offers same⟩

theorem goesWell_call (full : (c.device i).answer size = ⟨size, none⟩) :
    GoesWell c (c.call i size event).2 := by
  intro j
  by_cases same : j = i
  · subst same
    by_cases discards : (c.device j).kind = .discard
    · rw [call, if_pos discards]
      exact ⟨[], .refl c j, trivial⟩
    · exact ⟨_, heard_call_self offers discards, full, trivial⟩
  · exact ⟨_, heard_call_other offers same, trivial⟩

theorem fails_call (short : (c.device i).answer size ≠ ⟨size, none⟩) :
    Fails c (c.call i size event).2 i := by
  have keeps : (c.device i).kind ≠ .discard :=
    fun discards => short (Device.answer_discard discards size)
  exact ⟨_, heard_call_self offers keeps, fun full => short full.1⟩

end

/-- Devices that own up to what they do not take have taken everything, where there was no error. -/
theorem carries_goesWell (honest : ∀ i, (c.device i).Honest) (leaves : List Nat) :
    Carries leaves (GoesWell c) (Goes c) where
  weaker well := well.goes
  fine {d i size event} well _ offers fine := by
    have taken := Device.answer_of_honest (well.goes.honest honest i) fine
    have full : (d.device i).answer size = ⟨size, none⟩ := by
      generalize (d.device i).answer size = answer at taken fine
      obtain ⟨_, _⟩ := answer
      cases taken
      cases fine
      rfl
    exact well.trans (goesWell_call offers full)
  failed {d i size event} well _ offers := well.goes.trans (goes_call offers d)

theorem goesWell_flush (c : Console) (i : Nat) : GoesWell c (c.flush i).2 := by
  refine fun j => ⟨[], ⟨?_, ?_⟩, trivial⟩
  · have offers := (heard_note c (e := .flush i) rfl j).offers
    by_cases can : (c.device i).canFlush = true
    · simp only [flush, if_pos can]
      exact offers
    · simp only [flush, if_neg can]
      exact (List.append_nil _).symm
  · by_cases same : i = j
    · subst same
      rw [device_flush_self]
      exact Device.after_flushed _
    · rw [device_flush_other c same]
      exact .refl _

end Console

namespace Output

open Console (Goes GoesWell)

theorem goesWell_flushEach (c : Console) (leaves : List Nat) :
    GoesWell c (flushEach c leaves).2 := by
  induction leaves generalizing c with
  | nil => exact .refl c
  | cons i rest ih => exact (Console.goesWell_flush c i).trans (ih (c.flush i).2)

end Output
end StackLang
