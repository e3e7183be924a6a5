import StackLang.Output

/-! Outputs side by side. Devices answer by their own script alone, so two consoles with the same
devices take the same bytes from every writer, whatever happened on them before. -/
namespace StackLang

def SameAnswer {σ : Type} (R : σ → σ → Prop) (x y : Written × σ) : Prop :=
  y.1 = x.1 ∧ R x.2 y.2

namespace Console

/-- A relation between consoles with the same devices that calls keep, and that no line of the trace
can break. -/
structure Steady (C : Console → Console → Prop) : Prop where
  devices {c d : Console} (related : C c d) : d.devices = c.devices
  call {c d : Console} (related : C c d) (i size : Nat) (event : Nat → Event) :
    C (c.call i size event).2 (d.call i size event).2
  trace {c d : Console} (related : C c d) (line : TraceLine) :
    C (c.note (.trace line)) d ∧ C c (d.note (.trace line))

theorem device_eq {c d : Console} (devices : d.devices = c.devices) (i : Nat) :
    d.device i = c.device i := by
  unfold device
  rw [devices]

structure SteadyOn (leaves : List Nat) (C : Console → Console → Prop) : Prop where
  device {c d : Console} (related : C c d) {i : Nat} (leaf : i ∈ leaves) : d.device i = c.device i
  call {c d : Console} (related : C c d) {i : Nat} (leaf : i ∈ leaves) (size : Nat)
    (event : Nat → Event) : C (c.call i size event).2 (d.call i size event).2
  trace {c d : Console} (related : C c d) (line : TraceLine) :
    C (c.note (.trace line)) d ∧ C c (d.note (.trace line))

theorem Steady.on {C : Console → Console → Prop} (steady : Steady C) (leaves : List Nat) :
    SteadyOn leaves C where
  device related i _ := device_eq (steady.devices related) i
  call related i _ := steady.call related i
  trace := steady.trace

theorem call_answer (c : Console) (i size : Nat) (event : Nat → Event) :
    (c.call i size event).1 = (c.device i).answer size := by
  simp only [call]
  split <;> rfl

theorem SteadyOn.answer {leaves : List Nat} {C : Console → Console → Prop}
    (steady : SteadyOn leaves C) {c d : Console} (related : C c d) {i : Nat} (leaf : i ∈ leaves)
    (size : Nat) (event : Nat → Event) :
    SameAnswer C (c.call i size event) (d.call i size event) := by
  refine ⟨?_, steady.call related leaf size event⟩
  rw [call_answer, call_answer, steady.device related leaf]

structure Alike (keep : Event → Bool) (c d : Console) : Prop where
  devices : d.devices = c.devices
  events : d.events.filter keep = c.events.filter keep

theorem Alike.refl (keep : Event → Bool) (c : Console) : Alike keep c c := ⟨rfl, rfl⟩

theorem steady_alike {keep : Event → Bool} (silent : ∀ line, keep (.trace line) = false) :
    Steady (Alike keep) where
  devices related := related.devices
  call {c d} related i size event := by
    have same := device_eq related.devices i
    by_cases discards : (c.device i).kind = .discard
    · simp only [call, same, if_pos discards]
      exact related
    · simp only [call, same, if_neg discards]
      exact ⟨by rw [related.devices], by simp only [List.filter_cons, related.events]⟩
  trace related line := by
    obtain ⟨devices, events⟩ := related
    refine ⟨⟨devices, ?_⟩, ⟨devices, ?_⟩⟩
    · rw [events, note, List.filter_cons_of_neg (by simp [silent])]
    · rw [← events, note, List.filter_cons_of_neg (by simp [silent])]

end Console

namespace Output

/-- The same leaves and the same tally over related consoles. -/
structure Paired (C : Console → Console → Prop) (o p : Output) : Prop where
  leaves : p.leaves = o.leaves
  tally : p.tally = o.tally
  console : C o.console p.console

theorem leaves_of_characterDevice? {o : Output} {i : Nat} (found : o.characterDevice? = some i) :
    o.leaves = [i] := by
  unfold characterDevice? at found
  split at found
  · rename_i leaves _
    split at found
    · cases found
      exact leaves
    · cases found
  · cases found

structure PairedOn (leaves : List Nat) (C : Console → Console → Prop) (o p : Output) : Prop where
  leaves : o.leaves = leaves
  paired : Paired C o p

section

variable {leaves : List Nat} {C : Console → Console → Prop} (steady : Console.SteadyOn leaves C)

include steady

theorem writeEach_same (data : Text) (rest : List Nat) (within : ∀ i ∈ rest, i ∈ leaves)
    {c d : Console} (related : C c d) :
    SameAnswer C (writeEach c data rest) (writeEach d data rest) := by
  induction rest generalizing c d with
  | nil => exact ⟨rfl, related⟩
  | cons i rest ih =>
    obtain ⟨here, later⟩ := List.forall_mem_cons.1 within
    have first := steady.answer related here data.length (.write i data)
    simp only [writeEach, Console.write]
    generalize c.call i data.length (.write i data) = here at first ⊢
    generalize d.call i data.length (.write i data) = there at first ⊢
    obtain ⟨⟨taken, error⟩, c'⟩ := here
    obtain ⟨_, d'⟩ := there
    obtain ⟨rfl, related⟩ := first
    cases error with
    | some e => exact ⟨rfl, related⟩
    | none =>
      by_cases all : taken = data.length
      · simp only [if_pos all]
        exact ih later related
      · simp only [if_neg all]
        exact ⟨rfl, related⟩

theorem PairedOn.write {o p : Output} (paired : PairedOn leaves C o p) (data : Text) :
    SameAnswer (PairedOn leaves C) (o.write data) (p.write data) := by
  obtain ⟨is, tally, console⟩ := o
  obtain ⟨js, tally', console'⟩ := p
  obtain ⟨listed, same, count, related⟩ := paired
  cases same
  cases count
  cases listed
  have told {x y : Written × Console} (same : SameAnswer C x y) : SameAnswer (PairedOn is C)
      (x.1, { leaves := is, tally := tally.map (·.add data x.1.taken), console := x.2 })
      (y.1, { leaves := is, tally := tally.map (·.add data y.1.taken), console := y.2 }) := by
    obtain ⟨answer, related⟩ := same
    exact ⟨answer, rfl, rfl, by rw [answer], related⟩
  have each := writeEach_same steady data is (fun _ mem => mem) related
  rcases is with _ | ⟨i, _ | ⟨j, rest⟩⟩
  · exact told each
  · exact told (steady.answer related List.mem_cons_self data.length (.write i data))
  · exact told each

theorem PairedOn.writeCode {o p : Output} (paired : PairedOn leaves C o p) (code : Int32) :
    SameAnswer (PairedOn leaves C) (o.writeCode code) (p.writeCode code) := by
  obtain ⟨listed, same, tally, related⟩ := paired
  have device : p.characterDevice? = o.characterDevice? := by
    simp only [characterDevice?, same, tally]
    split
    · rename_i i only _
      rw [steady.device related (by rw [← listed, only]; exact List.mem_cons_self)]
    · rfl
  unfold Output.writeCode
  rw [device]
  split
  · exact PairedOn.write steady ⟨listed, same, tally, related⟩ _
  · rename_i i found
    have leaf : i ∈ leaves := by
      rw [← listed, leaves_of_characterDevice? found]
      exact List.mem_cons_self
    split
    · obtain ⟨answer, related⟩ := steady.answer related leaf 1 (.byte i code.toUInt32.toUInt8)
      exact ⟨by simp only [Console.writeByte, answer], listed, same, tally, related⟩
    · obtain ⟨answer, related⟩ :=
        steady.answer related leaf (encodeCode code).length (.character i code)
      exact ⟨answer, listed, same, tally, related⟩

theorem PairedOn.writeCodesAfter {o p : Output} (paired : PairedOn leaves C o p) (n : Nat)
    (codes : List Int32) :
    SameAnswer (PairedOn leaves C) (o.writeCodesAfter n codes) (p.writeCodesAfter n codes) := by
  induction codes generalizing o p n with
  | nil => exact ⟨rfl, paired⟩
  | cons code rest ih =>
    have first := paired.writeCode steady code
    simp only [Output.writeCodesAfter]
    generalize o.writeCode code = here at first ⊢
    generalize p.writeCode code = there at first ⊢
    obtain ⟨⟨k, error⟩, o'⟩ := here
    obtain ⟨_, p'⟩ := there
    obtain ⟨rfl, paired⟩ := first
    cases error with
    | some e => exact ⟨rfl, paired⟩
    | none => exact ih paired (n + k)

theorem PairedOn.trace {o p : Output} (paired : PairedOn leaves C o p) (line : TraceLine) :
    PairedOn leaves C (o.note (.trace line)) p ∧ PairedOn leaves C o (p.note (.trace line)) := by
  obtain ⟨listed, same, tally, related⟩ := paired
  obtain ⟨left, right⟩ := steady.trace related line
  exact ⟨⟨listed, same, tally, left⟩, ⟨listed, same, tally, right⟩⟩

end

/-- A relation between outputs that writing and tracing keep. -/
structure Steady (O : Output → Output → Prop) : Prop where
  write {o p : Output} (related : O o p) (data : Text) : SameAnswer O (o.write data) (p.write data)
  writeCodes {o p : Output} (related : O o p) (codes : List Int32) :
    SameAnswer O (o.writeCodes codes) (p.writeCodes codes)
  trace {o p : Output} (related : O o p) (line : TraceLine) :
    O (o.note (.trace line)) p ∧ O o (p.note (.trace line))

/-- No line of the trace can break the relation. -/
def Silent (O : Output → Output → Prop) : Prop :=
  ∀ {o p : Output}, O o p → ∀ line,
    O (o.note (.trace line)) p ∧ O o (p.note (.trace line))

theorem steady_pairedOn {leaves : List Nat} {C : Console → Console → Prop}
    (steady : Console.SteadyOn leaves C) : Steady (PairedOn leaves C) where
  write related data := related.write steady data
  writeCodes related codes := related.writeCodesAfter steady 0 codes
  trace related line := related.trace steady line

theorem steady_paired {C : Console → Console → Prop} (steady : Console.Steady C) :
    Steady (Paired C) where
  write {o _} related data := by
    have on : PairedOn o.leaves C o _ := ⟨rfl, related⟩
    obtain ⟨answer, _, related⟩ := on.write (steady.on _) data
    exact ⟨answer, related⟩
  writeCodes {o _} related codes := by
    have on : PairedOn o.leaves C o _ := ⟨rfl, related⟩
    obtain ⟨answer, _, related⟩ := on.writeCodesAfter (steady.on _) 0 codes
    exact ⟨answer, related⟩
  trace {o _} related line := by
    have on : PairedOn o.leaves C o _ := ⟨rfl, related⟩
    obtain ⟨left, right⟩ := on.trace (steady.on _) line
    exact ⟨left.paired, right.paired⟩

end Output
end StackLang
