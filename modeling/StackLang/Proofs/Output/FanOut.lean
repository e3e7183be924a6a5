import StackLang.Proofs.Output.Tee

/-! What a tee does, however it has been put together: it offers a write to its sinks from left to
right and stops at the first that fails or falls short, and it flushes all of them. The output of a
program is such a tee of devices. -/
namespace StackLang

namespace Outlets

variable {σ : Type} (outlets : Outlets σ)

def Takes (data : Text) : List Nat → σ → Prop
  | [], _ => True
  | i :: rest, s =>
    (outlets.write i data s).1 = ⟨data.length, none⟩ ∧ Takes data rest (outlets.write i data s).2

def offered (data : Text) (leaves : List Nat) (s : σ) : σ :=
  leaves.foldl (fun s i => (outlets.write i data s).2) s

/-- How an offer to several sinks may end: all of them have taken the whole of it, or one has not
and none after it has been called. -/
inductive Fans (data : Text) (leaves : List Nat) (s : σ) : Written × σ → Prop
  | whole (took : outlets.Takes data leaves s) :
    Fans data leaves s (⟨data.length, none⟩, outlets.offered data leaves s)
  | stops {before later : List Nat} {i : Nat} {w : Written} {t : σ}
    (split : leaves = before ++ i :: later) (took : outlets.Takes data before s)
    (answer : outlets.write i data (outlets.offered data before s) = (w, t))
    (short : w ≠ ⟨data.length, none⟩) :
    Fans data leaves s (⟨w.taken, some (w.error.getD .short)⟩, t)

def flushAnswers : List Nat → σ → List (Option WriteError)
  | [], _ => []
  | i :: rest, s => (outlets.flush i s).1 :: flushAnswers rest (outlets.flush i s).2

def flushed (leaves : List Nat) (s : σ) : σ := leaves.foldl (fun s i => (outlets.flush i s).2) s

variable {outlets} {data : Text} {leaves : List Nat} {s : σ} {r : Written × σ}

theorem Takes.split {before later : List Nat} {i : Nat}
    (took : outlets.Takes data (before ++ i :: later) s) :
    (outlets.write i data (outlets.offered data before s)).1 = ⟨data.length, none⟩ := by
  induction before generalizing s with
  | nil => exact took.1
  | cons j before ih => exact ih took.2

namespace Fans

theorem cons {i : Nat} (took : (outlets.write i data s).1 = ⟨data.length, none⟩)
    (fans : outlets.Fans data leaves (outlets.write i data s).2 r) :
    outlets.Fans data (i :: leaves) s r := by
  cases fans with
  | whole others =>
    have all : outlets.Takes data (i :: leaves) s := ⟨took, others⟩
    exact .whole all
  | @stops before later j w t split others answer short =>
    have sofar : outlets.Takes data (i :: before) s := ⟨took, others⟩
    exact .stops (congrArg (i :: ·) split) sofar answer short

theorem whole_iff (fans : outlets.Fans data leaves s r) :
    r.1 = ⟨data.length, none⟩ ↔ outlets.Takes data leaves s := by
  cases fans with
  | whole took => exact ⟨fun _ => took, fun _ => rfl⟩
  | stops split _ answer short =>
    constructor
    · intro whole
      cases congrArg Written.error whole
    · intro took
      subst split
      have taken := took.split
      rw [answer] at taken
      exact absurd taken short

end Fans
end Outlets

namespace Conduit

section

variable {σ : Type} (outlets : Outlets σ)

theorem writeRow_fans (data : Text) (leaves : List Nat) (s : σ) :
    outlets.Fans data leaves s (writeRow outlets data (leaves.map outlet) s) := by
  induction leaves generalizing s with
  | nil => exact .whole trivial
  | cons i rest ih =>
    have others := ih (outlets.write i data s).2
    simp only [List.map_cons, writeRow, write]
    cases offer : outlets.write i data s with
    | mk w t =>
      rw [offer] at others
      obtain ⟨taken, error⟩ := w
      cases error with
      | some e => exact .stops (List.nil_append (i :: rest)).symm trivial offer nofun
      | none =>
        by_cases all : taken = data.length
        · subst all
          simp only [if_true]
          apply Outlets.Fans.cons
          · rw [offer]
          · rw [offer]
            exact others
        · simp only [if_neg all]
          apply Outlets.Fans.stops (List.nil_append (i :: rest)).symm trivial offer
          intro whole
          exact all (congrArg Written.taken whole)

theorem flushRow_eq (leaves : List Nat) (s : σ) : flushRow outlets (leaves.map outlet) s =
    ((outlets.flushAnswers leaves s).findSome? id, outlets.flushed leaves s) := by
  induction leaves generalizing s with
  | nil => rfl
  | cons i rest ih =>
    have others := ih (outlets.flush i s).2
    simp only [List.map_cons, flushRow, flush, others, Outlets.flushAnswers, List.findSome?_cons]
    cases (outlets.flush i s).1 <;> rfl

theorem writeRow_named (data : Text) (ms : List (Option Nat)) (s : σ) :
    writeRow outlets data (ms.map single) s =
      writeRow outlets data (ms.reduceOption.map outlet) s := by
  induction ms generalizing s with
  | nil => rfl
  | cons m ms ih =>
    cases m with
    | none =>
      simp only [List.map_cons, single, writeRow, write, if_true]
      exact ih s
    | some i =>
      simp only [List.map_cons, List.reduceOption_cons_of_some, single, writeRow, ih]

theorem flushRow_named (ms : List (Option Nat)) (s : σ) :
    flushRow outlets (ms.map single) s = flushRow outlets (ms.reduceOption.map outlet) s := by
  induction ms generalizing s with
  | nil => rfl
  | cons m ms ih =>
    cases m with
    | none =>
      simp only [List.map_cons, single, flushRow, flush]
      exact ih s
    | some i =>
      simp only [List.map_cons, List.reduceOption_cons_of_some, single, flushRow, ih]

theorem answer_row (ms : List (Option Nat)) :
    (row (ms.map single)).answer outlets = (row (ms.reduceOption.map outlet)).answer outlets := by
  funext call s
  cases call with
  | write data => simp only [answer, write, writeRow_named]
  | flush => simp only [answer, flush, flushRow_named]

/-- A sink that discards stands for nothing, but it makes a tee of one sink a tee of two. -/
theorem answer_inRow {ms : List (Option Nat)} (several : ∀ i, ms ≠ [some i]) :
    (inRow ms).answer outlets = (row (ms.reduceOption.map outlet)).answer outlets := by
  match ms with
  | [] => rfl
  | [some i] => exact absurd rfl (several i)
  | [none] =>
    funext call s
    cases call <;> rfl
  | _ :: _ :: _ => exact answer_row outlets _

theorem eq_single {ms : List (Option Nat)} {i : Nat} (one : ms.length = 1)
    (named : ms.reduceOption = [i]) : ms = [some i] := by
  obtain ⟨m, rfl⟩ := List.length_eq_one_iff.1 one
  cases m with
  | none => cases named
  | some j =>
    cases named
    rfl

theorem answer_alike {ms ns : List (Option Nat)} (same : ns.reduceOption = ms.reduceOption)
    (alone : (ns.length = 1 ↔ ms.length = 1) ∨ ms.reduceOption.length ≠ 1) :
    (inRow ns).answer outlets = (inRow ms).answer outlets := by
  -- a tree of one sink is that sink, and every other one is a row
  have both {i : Nat} {ls : List (Option Nat)} (only : ls = [some i])
      (either : ls = ms ∨ ls = ns) : ns = ms := by
    have named : ms.reduceOption = [i] := by
      rcases either with rfl | rfl
      · rw [only]
        rfl
      · rw [← same, only]
        rfl
    have lengths : ns.length = 1 ↔ ms.length = 1 := by
      rcases alone with lengths | other
      · exact lengths
      · exact absurd (congrArg List.length named) other
    have one : ls.length = 1 := by rw [only]; rfl
    rcases either with rfl | rfl
    · rw [eq_single (lengths.2 one) (same.trans named), only]
    · rw [eq_single (lengths.1 one) named, only]
  by_cases here : ∃ i, ms = [some i]
  · obtain ⟨i, only⟩ := here
    rw [both only (.inl rfl)]
  by_cases there : ∃ i, ns = [some i]
  · obtain ⟨i, only⟩ := there
    rw [both only (.inr rfl)]
  · rw [answer_inRow outlets fun i only => here ⟨i, only⟩,
      answer_inRow outlets fun i only => there ⟨i, only⟩, same]

end

/-- The sink that a tree of tees has been put together to answers like a tee of all its sinks, or
like the only one. -/
structure FansOut {σ : Type} (outlets : Outlets σ) (tree : Sink) (built : Conduit) : Prop where
  nothing (none : tree.named = []) (s : σ) :
    (∀ data, built.write outlets data s = (⟨data.length, .none⟩, s)) ∧
      built.flush outlets s = (.none, s)
  alone {i : Nat} (only : tree.members = [some i]) : built = outlet i
  write (several : tree.members.length ≠ 1) (data : Text) (s : σ) :
    outlets.Fans data tree.named s (built.write outlets data s)
  whole_iff (several : tree.members.length ≠ 1) (data : Text) (s : σ) :
    (built.write outlets data s).1 = ⟨data.length, none⟩ ↔ outlets.Takes data tree.named s
  flush (several : tree.members.length ≠ 1) (s : σ) : built.flush outlets s =
    ((outlets.flushAnswers tree.named s).findSome? id, outlets.flushed tree.named s)

theorem named_eq_nil {ms : List (Option Nat)} (none : ms.reduceOption = []) (i : Nat) :
    ms ≠ [some i] := by
  intro only
  subst only
  cases none

theorem named_of_several {ms : List (Option Nat)} (several : ms.length ≠ 1) (i : Nat) :
    ms ≠ [some i] := by
  intro only
  subst only
  exact several rfl

theorem write_of_answer {σ : Type} {outlets : Outlets σ} {k l : Conduit}
    (same : k.answer outlets = l.answer outlets) (data : Text) (s : σ) :
    k.write outlets data s = l.write outlets data s := by
  have at_call := congrFun (congrFun same (.write data)) s
  simp only [answer, Prod.mk.injEq, SinkAnswer.written.injEq] at at_call
  exact Prod.ext at_call.1 at_call.2

theorem flush_of_answer {σ : Type} {outlets : Outlets σ} {k l : Conduit}
    (same : k.answer outlets = l.answer outlets) (s : σ) :
    k.flush outlets s = l.flush outlets s := by
  have at_call := congrFun (congrFun same .flush) s
  simp only [answer, Prod.mk.injEq, SinkAnswer.flushed.injEq] at at_call
  exact Prod.ext at_call.1 at_call.2

theorem fansOut_inRow {σ : Type} (outlets : Outlets σ) (tree : Sink) :
    FansOut outlets tree (inRow tree.members) := by
  have row (several : tree.members.length ≠ 1) := answer_inRow outlets (named_of_several several)
  have write (several : tree.members.length ≠ 1) (data : Text) (s : σ) :
      outlets.Fans data tree.named s ((inRow tree.members).write outlets data s) := by
    rw [write_of_answer (row several)]
    exact writeRow_fans outlets data tree.named s
  constructor
  · intro none s
    have same := answer_inRow outlets (named_eq_nil none)
    rw [Sink.named] at none
    rw [none] at same
    constructor
    · intro data
      exact write_of_answer same data s
    · exact flush_of_answer same s
  · intro i only
    rw [only]
    rfl
  · exact write
  · intro several data s
    exact (write several data s).whole_iff
  · intro several s
    rw [flush_of_answer (row several)]
    exact flushRow_eq outlets tree.named s

end Conduit

namespace Console

def outlets : Outlets Console where
  write i data c := c.write i data
  flush i c := c.flush i

theorem device_beyond (c : Console) : c.device c.devices.length = { kind := .discard } := by
  rw [device, List.getD_eq_getElem?_getD, List.getElem?_eq_none (Nat.le_refl _)]
  rfl

theorem write_beyond (c : Console) (data : Text) :
    c.write c.devices.length data = (⟨data.length, none⟩, c) := by
  simp only [write, call, device_beyond, Device.answer, if_true]

theorem flush_beyond (c : Console) : c.flush c.devices.length = (none, c) := by
  simp only [flush, device_beyond]
  rfl

theorem length_call (c : Console) (i size : Nat) (event : Nat → Event) :
    (c.call i size event).2.devices.length = c.devices.length := by
  by_cases discards : (c.device i).kind = .discard
  · simp only [call, if_pos discards]
  · simp only [call, if_neg discards, List.length_set]

theorem length_flush (c : Console) (i : Nat) :
    (c.flush i).2.devices.length = c.devices.length := by
  by_cases can : (c.device i).canFlush = true
  · simp only [flush, if_pos can, List.length_set]
  · simp only [flush, if_neg can]

end Console

namespace Sink

mutual

theorem leaves_eq (beyond : Nat) (s : Sink) :
    s.leaves beyond = s.members.map (·.getD beyond) := by
  cases s with
  | device i => rfl
  | nowhere => rfl
  | tee parts =>
    simp only [leaves, members, leavesOfAll_eq beyond parts]
    cases membersOfAll parts <;> rfl

theorem leavesOfAll_eq (beyond : Nat) (sinks : List Sink) :
    leavesOfAll beyond sinks = (membersOfAll sinks).map (·.getD beyond) := by
  cases sinks with
  | nil => rfl
  | cons s rest =>
    simp only [leavesOfAll, membersOfAll, List.map_append]
    rw [leaves_eq beyond s, leavesOfAll_eq beyond rest]

end

end Sink

namespace Output

open Conduit (single inRow)

def answer (o : Output) : SinkCall → SinkAnswer × Output
  | .write data => (.written (o.write data).1, (o.write data).2)
  | .flush => (.flushed o.flush.1, o.flush.2)

theorem writeEach_row (data : Text) (ms : List (Option Nat)) {beyond : Nat} {c : Console}
    (count : c.devices.length = beyond) : writeEach c data (ms.map (·.getD beyond)) =
      Conduit.writeRow Console.outlets data (ms.map single) c := by
  induction ms generalizing c with
  | nil => rfl
  | cons m ms ih =>
    cases m with
    | none =>
      subst count
      simp only [List.map_cons, Option.getD_none, writeEach, Console.write_beyond, single,
        Conduit.writeRow, Conduit.write, if_true]
      exact ih rfl
    | some i =>
      have later := ih ((Console.length_call c i data.length (.write i data)).trans count)
      simp only [List.map_cons, Option.getD_some, writeEach, single, Conduit.writeRow,
        Conduit.write, Console.outlets]
      rw [← Console.write] at later
      generalize c.write i data = offered at later ⊢
      obtain ⟨⟨taken, error⟩, d⟩ := offered
      cases error with
      | some e => rfl
      | none => simp only [later, Console.outlets]

theorem flushEach_row (ms : List (Option Nat)) {beyond : Nat} {c : Console}
    (count : c.devices.length = beyond) : flushEach c (ms.map (·.getD beyond)) =
      Conduit.flushRow Console.outlets (ms.map single) c := by
  induction ms generalizing c with
  | nil => rfl
  | cons m ms ih =>
    cases m with
    | none =>
      subst count
      simp only [List.map_cons, Option.getD_none, flushEach, Console.flush_beyond, single,
        Conduit.flushRow, Conduit.flush]
      rw [ih rfl]
    | some i =>
      have later := ih ((Console.length_flush c i).trans count)
      simp only [List.map_cons, Option.getD_some, flushEach, single, Conduit.flushRow,
        Conduit.flush, Console.outlets] at later ⊢
      rw [later]

variable {o : Output} {ms : List (Option Nat)} {beyond : Nat}

theorem write_inRow (leaves : o.leaves = ms.map (·.getD beyond))
    (count : o.console.devices.length = beyond) (data : Text) :
    ((o.write data).1, (o.write data).2.console) =
      (inRow ms).write Console.outlets data o.console := by
  obtain ⟨is, tally, c⟩ := o
  cases leaves
  match ms with
  | [] => rfl
  | [some i] => rfl
  | [none] =>
    have last : c.devices.length = beyond := count
    subst last
    exact Console.write_beyond c data
  | m :: n :: rest => exact writeEach_row data (m :: n :: rest) count

theorem flush_inRow (leaves : o.leaves = ms.map (·.getD beyond))
    (count : o.console.devices.length = beyond) :
    (o.flush.1, o.flush.2.console) = (inRow ms).flush Console.outlets o.console := by
  have each := flushEach_row ms count
  rw [← leaves] at each
  refine each.trans ?_
  match ms with
  | [] => rfl
  | [some i] =>
    simp only [List.map_cons, List.map_nil, single, Conduit.flushRow, inRow, Option.or_none]
  | [none] => rfl
  | m :: n :: rest => rfl

theorem length_flushEach (c : Console) (leaves : List Nat) :
    (flushEach c leaves).2.devices.length = c.devices.length := by
  induction leaves generalizing c with
  | nil => rfl
  | cons i rest ih => exact (ih (c.flush i).2).trans (Console.length_flush c i)

/-- The devices are counted once and for all. -/
theorem count_answer (o : Output) (call : SinkCall) :
    (o.answer call).2.console.devices.length = o.console.devices.length := by
  cases call with
  | write data =>
    have carries : Console.Carries o.leaves (·.devices.length = o.console.devices.length)
        (·.devices.length = o.console.devices.length) :=
      .always fun count _ _ => (Console.length_call _ _ _ _).trans count
    exact (carried_write carries rfl data).2
  | flush => exact length_flushEach o.console o.leaves

/-- A counted output to the sinks of a tree. -/
structure Leads (ms : List (Option Nat)) (beyond : Nat) (o : Output) (c : Console) : Prop where
  leaves : o.leaves = ms.map (·.getD beyond)
  count : o.console.devices.length = beyond
  console : o.console = c

theorem Leads.answer {c : Console} (leads : Leads ms beyond o c) (call : SinkCall) :
    (o.answer call).1 = ((inRow ms).answer Console.outlets call c).1 ∧
      Leads ms beyond (o.answer call).2 ((inRow ms).answer Console.outlets call c).2 := by
  obtain ⟨leaves, count, rfl⟩ := leads
  have later := (count_answer o call).trans count
  cases call with
  | write data =>
    have written := write_inRow leaves count data
    constructor
    · simp only [Output.answer, Conduit.answer, ← written]
    · refine ⟨leaves, later, ?_⟩
      simp only [Output.answer, Conduit.answer, ← written]
  | flush =>
    have flushed := flush_inRow leaves count
    constructor
    · simp only [Output.answer, Conduit.answer, ← flushed]
    · refine ⟨leaves, later, ?_⟩
      simp only [Output.answer, Conduit.answer, ← flushed]

theorem leads_counted (c : Console) (tree : Sink) :
    Leads tree.members c.devices.length (counted c tree) c :=
  ⟨tree.leaves_eq c.devices.length, rfl, rfl⟩

end Output

open Conduit (FansOut) in
/-- However tees are nested, what comes of them writes to their sinks from left to right. Two trees
with the same sinks cannot be told apart, unless a tee of nothing stands beside the only sink of one
of them. An output to such a tree answers as the tree does. -/
theorem tees_fan_out {σ : Type} (outlets : Outlets σ) (parts : List Sink) :
    let tree := Sink.tee parts
    ∃ built, tree.conduit? = some built ∧ FansOut outlets tree built ∧
      (∀ others other, (Sink.tee others).conduit? = some other →
        (Sink.tee others).named = tree.named →
        ((Sink.tee others).members.length = 1 ↔ tree.members.length = 1) ∨ tree.named.length ≠ 1 →
        ∀ calls s, answers (other.answer outlets) calls s = answers (built.answer outlets) calls s) ∧
      ∀ (c : Console) (calls : List SinkCall),
        let run := answers (fun call o => Output.answer o call) calls (Output.counted c tree)
        let direct := answers (built.answer Console.outlets) calls c
        run.1 = direct.1 ∧ run.2.console = direct.2 := by
  intro tree
  refine ⟨Conduit.inRow tree.members, Conduit.conduit_tee parts, Conduit.fansOut_inRow outlets tree,
    ?_, ?_⟩
  · intro others other built same alone calls s
    cases (Conduit.conduit_tee others).symm.trans built
    rw [Conduit.answer_alike outlets same alone]
  · intro c calls
    have related := answers_alike (R := Output.Leads tree.members c.devices.length)
      (fun call o c leads => leads.answer call) calls (Output.leads_counted c tree)
    exact ⟨related.1, related.2.console⟩

def nestedTees : List Sink := [.tee [.device 0], .nowhere, .tee [.tee [.device 1], .device 0]]

def reluctant : Console := { devices := [{}, { script := [.upToAndRefuse 1 (utf8 "full")] }] }

/-- The second of three sinks takes one byte of two, and the third is not called any more. -/
theorem tees_fan_out_nested :
    ∃ built, (Sink.tee nestedTees).conduit? = some built ∧ (Sink.tee nestedTees).named = [0, 1, 0] ∧
      Console.outlets.Fans [0x68, 0x69] [0, 1, 0] reluctant
        (built.write Console.outlets [0x68, 0x69] reluctant) ∧
      built.write Console.outlets [0x68, 0x69] reluctant = (⟨1, some (.device (utf8 "full"))⟩,
        { devices := [{}, {}], events := [.write 1 [0x68, 0x69] 1, .write 0 [0x68, 0x69] 2] }) := by
  obtain ⟨built, put, fans, -⟩ := tees_fan_out Console.outlets nestedTees
  refine ⟨built, put, by decide, fans.write (by decide) [0x68, 0x69] reluctant, ?_⟩
  cases put
  rfl

/-- A tee of nothing is a sink that discards. Beside the only sink it makes a tee of two, which tells
of a short write where the sink itself does not. -/
theorem tee_of_nothing_counts : ¬ ∀ (parts : List Sink) (i : Nat) (c : Console) (data : Text),
    (Sink.tee parts).named = [i] →
      ((Output.counted c (.tee parts)).write data).1 = (c.write i data).1 := by
  intro alike
  have same := alike [.tee [], .device 0] 0 { devices := [{ script := [.upTo 1] }] } [0x68, 0x69]
    (by decide)
  revert same
  decide

end StackLang
