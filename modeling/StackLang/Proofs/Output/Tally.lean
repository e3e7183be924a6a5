import StackLang.Proofs.Output.Events

/-! A counted output knows what its device has taken. Whatever is offered and however much of it is
taken, the tally has the length of what went out and the last byte of it. -/
namespace StackLang

namespace Tally

def of (text : Text) : Tally := ⟨text.length, text.getLastD 0⟩

theorem getLastD_append (text more : Text) (b : UInt8) :
    (text ++ more).getLastD b = more.getLastD (text.getLastD b) := by
  induction text generalizing b with
  | nil => rfl
  | cons a text ih =>
    rw [List.cons_append, List.getLastD_cons, List.getLastD_cons]
    exact ih a

theorem of_add (text : Text) {data : Text} {taken : Nat} (within : taken ≤ data.length) :
    (of text).add data taken = of (text ++ data.take taken) := by
  unfold add
  by_cases nothing : taken = 0
  · rw [if_pos nothing, nothing, List.take_zero, List.append_nil]
  · rw [if_neg nothing, of, of, List.length_append, List.length_take, Nat.min_eq_left within,
      getLastD_append]

/-- Nothing went out, or what went out ends a line. -/
theorem endsLine_of (text : Text) :
    (of text).endsLine = true ↔ text = [] ∨ text.getLast? = some Text.newline := by
  unfold endsLine of
  rcases List.eq_nil_or_concat text with rfl | ⟨init, last, rfl⟩
  · simp
  · simp

end Tally

theorem Event.flatMap_data_ite (p : Prop) [Decidable p] (e : Event) :
    (if p then [e] else []).flatMap data = if p then e.data else [] := by
  split
  · exact List.flatMap_singleton data e
  · rfl

theorem Device.answer_le (d : Device) (size : Nat) : (d.answer size).taken ≤ size := by
  unfold answer
  split
  · exact Nat.le_refl size
  · exact Reply.written_le _ size

namespace Console

variable {i : Nat} {c d e : Console}

theorem eventsOf_note_self (c : Console) {e : Event} (here : e.device? = some i) :
    (c.note e).eventsOf i = c.eventsOf i ++ [e] := by
  simp only [eventsOf, note, List.reverse_cons, List.filter_append]
  rw [List.filter_cons_of_pos (by simp [here]), List.filter_nil]

theorem eventsOf_note_other (c : Console) {e : Event} (elsewhere : e.device? ≠ some i) :
    (c.note e).eventsOf i = c.eventsOf i := by
  simp only [eventsOf, note, List.reverse_cons, List.filter_append]
  rw [List.filter_cons_of_neg (by simp [elsewhere]), List.filter_nil, List.append_nil]

theorem eventsOf_note_congr (same : d.eventsOf i = c.eventsOf i) (e : Event) :
    (d.note e).eventsOf i = (c.note e).eventsOf i := by
  by_cases here : e.device? = some i
  · rw [eventsOf_note_self d here, eventsOf_note_self c here, same]
  · rw [eventsOf_note_other d here, eventsOf_note_other c here, same]

theorem eventsOf_trace (c : Console) (line : TraceLine) (i : Nat) :
    (c.note (.trace line)).eventsOf i = c.eventsOf i := eventsOf_note_other c nofun

theorem eventsOf_call (c : Console) (i size : Nat) (event : Nat → Event) (j : Nat) :
    (c.call i size event).2.eventsOf j =
      if (c.device i).kind = .discard then c.eventsOf j
      else (c.note (event ((c.device i).answer size).taken)).eventsOf j := by
  unfold call
  by_cases discards : (c.device i).kind = .discard
  · rw [if_pos discards, if_pos discards]
  · rw [if_neg discards, if_neg discards]
    rfl

theorem eventsOf_flush (c : Console) (i : Nat) :
    (c.flush i).2.eventsOf i =
      c.eventsOf i ++ if (c.device i).canFlush then [.flush i] else [] := by
  simp only [flush]
  split
  · exact eventsOf_note_self c rfl
  · exact (List.append_nil _).symm

/-- The device holds the same, and it will answer the same. -/
structure SameAt (i : Nat) (c d : Console) : Prop where
  device : d.device i = c.device i
  events : d.eventsOf i = c.eventsOf i

namespace SameAt

theorem refl (i : Nat) (c : Console) : SameAt i c c := ⟨rfl, rfl⟩

theorem trans (first : SameAt i c d) (second : SameAt i d e) : SameAt i c e :=
  ⟨second.device.trans first.device, second.events.trans first.events⟩

theorem data (same : SameAt i c d) : d.dataOf i = c.dataOf i :=
  congrArg (List.flatMap Event.data) same.events

theorem call_other {j : Nat} (other : j ≠ i) (size : Nat) {event : Nat → Event}
    (device : ∀ n, (event n).device? = some j) : SameAt i c (c.call j size event).2 := by
  refine ⟨device_call_other c other size event, ?_⟩
  have elsewhere (n : Nat) : (event n).device? ≠ some i := by
    rw [device]
    simpa using other
  rw [eventsOf_call, eventsOf_note_other c (elsewhere _), ite_self]

theorem call (same : SameAt i c d) (size : Nat) (event : Nat → Event) :
    SameAt i (c.call i size event).2 (d.call i size event).2 := by
  refine ⟨?_, ?_⟩
  · rw [device_call_self, device_call_self, same.device]
  · rw [eventsOf_call, eventsOf_call, same.device, same.events,
      eventsOf_note_congr same.events]

theorem flush (same : SameAt i c d) : SameAt i (c.flush i).2 (d.flush i).2 := by
  refine ⟨by rw [device_flush_self, device_flush_self, same.device], ?_⟩
  rw [eventsOf_flush, eventsOf_flush, same.device, same.events]

end SameAt

theorem steadyOn_sameAt (i : Nat) : SteadyOn [i] (SameAt i) where
  device same _ leaf := by
    cases List.mem_singleton.1 leaf
    exact same.device
  call same _ leaf size event := by
    cases List.mem_singleton.1 leaf
    exact same.call size event
  trace {c d} same line :=
    ⟨⟨same.device, same.events.trans (eventsOf_trace c line i).symm⟩,
      ⟨same.device, (eventsOf_trace d line i).trans same.events⟩⟩

end Console

namespace Output

/-- Since `base` the only device of the output has been called for `own`, and the output has counted
what it took. What is discarded is counted as well, but of that there is no record. -/
structure Counts (i : Nat) (base : Console) (own : List Event) (o : Output) : Prop where
  leaves : o.leaves = [i]
  later : (base.device i).Later (o.console.device i)
  events : o.console.eventsOf i = base.eventsOf i ++ own
  tally : ∃ t, o.tally = some t ∧
    ((base.device i).kind ≠ .discard → t = .of (own.flatMap Event.data))
  silent (discards : (base.device i).kind = .discard) : own = []

def Counted (i : Nat) (base : Console) (o : Output) : Prop := ∃ own, Counts i base own o

section

variable {i : Nat} {base : Console} {own : List Event} {o : Output}

theorem Counts.write (counts : Counts i base own o) (data : Text) :
    Counts i base (own ++ if (base.device i).kind = .discard then []
      else [.write i data ((o.console.device i).answer data.length).taken]) (o.write data).2 := by
  obtain ⟨leaves, tally, console⟩ := o
  obtain ⟨rfl, later, events, ⟨t, rfl, counted⟩, silent⟩ := counts
  have called := Console.eventsOf_call console i data.length (.write i data) i
  have answer := Console.call_answer console i data.length (.write i data)
  have tallied : (Output.write ⟨[i], some t, console⟩ data).2.tally =
      some (t.add data ((console.device i).answer data.length).taken) :=
    congrArg (fun w : Written => some (t.add data w.taken)) answer
  rw [later.kind, Console.eventsOf_note_self console rfl, events] at called
  refine ⟨rfl, later.trans (Console.later_call ..), ?_, ⟨_, tallied, fun keeps => ?_⟩, ?_⟩
  · refine called.trans ?_
    split
    · rw [List.append_nil]
    · rw [List.append_assoc]
  · have within := (console.device i).answer_le data.length
    rw [counted keeps, if_neg keeps, Tally.of_add _ within, List.flatMap_append,
      List.flatMap_singleton]
    rfl
  · intro discards
    rw [silent discards, if_pos discards, List.append_nil]

theorem Counts.writeCode (counts : Counts i base own o) (code : Int32) :
    Counted i base (o.writeCode code).2 := by
  obtain ⟨t, tally, -⟩ := counts.tally
  have bytes : o.characterDevice? = none := by
    simp [characterDevice?, tally]
  unfold Output.writeCode
  rw [bytes]
  exact ⟨_, counts.write _⟩

theorem Counted.writeCodesAfter (counted : Counted i base o) (n : Nat) (codes : List Int32) :
    Counted i base (o.writeCodesAfter n codes).2 := by
  induction codes generalizing o n with
  | nil => exact counted
  | cons code rest ih =>
    obtain ⟨own, counts⟩ := counted
    have first := counts.writeCode code
    unfold Output.writeCodesAfter
    generalize o.writeCode code = written at first ⊢
    obtain ⟨⟨k, error⟩, p⟩ := written
    cases error with
    | some e => exact first
    | none => exact ih first (n + k)

theorem Counted.serve (counted : Counted i base o) (r : Request) :
    Counted i base (o.serve r).2 := by
  cases r with
  | text data =>
    obtain ⟨own, counts⟩ := counted
    exact ⟨_, counts.write data⟩
  | codes cs => exact counted.writeCodesAfter 0 cs

theorem Counted.trace (counted : Counted i base o) (line : TraceLine) :
    Counted i base (o.note (.trace line)) := by
  obtain ⟨own, leaves, later, events, tally, silent⟩ := counted
  exact ⟨own, leaves, later, (Console.eventsOf_trace _ line i).trans events, tally, silent⟩

theorem Counts.flush (counts : Counts i base own o) :
    Counts i base (own ++ if (base.device i).canFlush then [.flush i] else []) o.flush.2 := by
  obtain ⟨leaves, tally, console⟩ := o
  obtain ⟨rfl, later, events, ⟨t, rfl, counted⟩, silent⟩ := counts
  have flushed := Console.eventsOf_flush console i
  have can : (console.device i).canFlush = (base.device i).canFlush := by
    rw [Device.canFlush, Device.canFlush, later.kind]
  rw [can, events, List.append_assoc] at flushed
  refine ⟨rfl, ?_, flushed, ⟨t, rfl, fun keeps => ?_⟩, fun discards => ?_⟩
  · exact later.trans (Console.later_flush console i i)
  · rw [counted keeps, List.flatMap_append, Event.flatMap_data_ite, Event.data, ite_self,
      List.append_nil]
  · rw [silent discards, Device.canFlush, discards]
    rfl

theorem Counts.data (counts : Counts i base own o) :
    o.console.dataOf i = base.dataOf i ++ own.flatMap Event.data := by
  unfold Console.dataOf
  rw [counts.events, List.flatMap_append]

def endLine (o : Output) : Output :=
  if o.tally.all Tally.endsLine then o else (o.write [Text.newline]).2

theorem Counts.endLine (counts : Counts i base own o) :
    let accepted := own.flatMap Event.data
    Counts i base (own ++ if accepted ≠ [] ∧ accepted.getLast? ≠ some Text.newline then
      [.write i [Text.newline] ((o.console.device i).answer 1).taken] else []) o.endLine := by
  intro accepted
  have written := counts.write [Text.newline]
  obtain ⟨t, tally, counted⟩ := counts.tally
  unfold Output.endLine
  rw [tally, Option.all_some]
  -- the tally of a device that discards may end a line or not: there is no event either way
  by_cases discards : (base.device i).kind = .discard
  · have nothing : accepted = [] := congrArg (List.flatMap Event.data) (counts.silent discards)
    rw [if_neg fun begun => begun.1 nothing]
    rw [if_pos discards] at written
    split
    · rwa [List.append_nil]
    · exact written
  · have ends := Tally.endsLine_of accepted
    rw [counted discards]
    by_cases ended : (Tally.of accepted).endsLine = true
    · have none : ¬ (accepted ≠ [] ∧ accepted.getLast? ≠ some Text.newline) :=
        fun begun => (ends.1 ended).elim begun.1 begun.2
      rw [if_pos ended, if_neg none, List.append_nil]
      exact counts
    · have begun : accepted ≠ [] ∧ accepted.getLast? ≠ some Text.newline :=
        ⟨fun empty => ended (ends.2 (.inl empty)), fun line => ended (ends.2 (.inr line))⟩
      rw [if_neg discards] at written
      rw [if_neg ended, if_pos begun]
      exact written

theorem Counts.ended (counts : Counts i base own o) (wanted : Bool) :
    let accepted := own.flatMap Event.data
    Counts i base (own ++
      if wanted = true ∧ accepted ≠ [] ∧ accepted.getLast? ≠ some Text.newline then
        [.write i [Text.newline] ((o.console.device i).answer 1).taken] else [])
      (if wanted then o.endLine else o) := by
  intro accepted
  cases wanted with
  | true =>
    simp only [true_and]
    exact counts.endLine
  | false =>
    simp only [Bool.false_eq_true, false_and, if_false, List.append_nil]
    exact counts

end

end Output
end StackLang
