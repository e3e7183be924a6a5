import Mathlib.Data.List.Induction
import StackLang.Proofs.Interpreter.Requests
import StackLang.Proofs.Output.FanOut
import StackLang.Proofs.Output.Rounds
import StackLang.Proofs.Session.Steps

/-! Settings from left to right. Groups are opened where they stand, and what sets nothing is left
out. Programs then write to the last output and to the tees behind it. -/
namespace StackLang

/-- The last of the values that are set, or else the default. -/
def lastOr {σ α : Type} (of? : σ → Option α) (default : α) (list : List σ) : α :=
  (list.filterMap of?).getLast?.getD default

theorem lastOr_concat {σ α : Type} (of? : σ → Option α) (default : α) (list : List σ) (s : σ) :
    lastOr of? default (list ++ [s]) = (of? s).getD (lastOr of? default list) := by
  unfold lastOr
  cases set : of? s with
  | none => simp [set]
  | some a => simp [set]

theorem foldl_lastOr {σ τ α : Type} {step : τ → σ → τ} (get : τ → α) {of? : σ → Option α}
    (sets : ∀ t s, get (step t s) = (of? s).getD (get t)) (t : τ) (list : List σ) :
    get (list.foldl step t) = lastOr of? (get t) list := by
  induction list using List.reverseRecOn with
  | nil => rfl
  | append_singleton list s ih => rw [List.foldl_concat, sets, ih, lastOr_concat]

namespace Setting

def gathered : List Setting → List Setting
  | [] => []
  | none :: rest => gathered rest
  | group members :: rest => members ++ gathered rest
  | s :: rest => s :: gathered rest

def combined (settings : List Setting) : Setting :=
  match gathered settings with
  | [s] => s
  | members => group members

mutual

def built : Setting → Setting
  | group settings => combined (builtAll settings)
  | s => s

def builtAll : List Setting → List Setting
  | [] => []
  | s :: rest => s.built :: builtAll rest

end

def IsFlat : Setting → Prop
  | group _ | none => False
  | _ => True

mutual

theorem isFlat_flat (s : Setting) : ∀ t ∈ s.flat, t.IsFlat := by
  cases s with
  | output | tee | maxCallDepth | tracing =>
    intro t mem
    cases List.mem_singleton.1 mem
    trivial
  | group settings => exact isFlat_flats settings
  | none => exact nofun

theorem isFlat_flats (settings : List Setting) : ∀ t ∈ flats settings, t.IsFlat := by
  cases settings with
  | nil => exact nofun
  | cons s rest =>
    intro t mem
    cases List.mem_append.1 mem with
    | inl here => exact isFlat_flat s t here
    | inr later => exact isFlat_flats rest t later

end

theorem gathered_cons {s : Setting} (flat : s.IsFlat) (rest : List Setting) :
    gathered (s :: rest) = s :: gathered rest := by
  cases s with
  | output | tee | maxCallDepth | tracing => rfl
  | group | none => exact flat.elim

theorem gathered_combined {settings : List Setting} (flat : ∀ s ∈ gathered settings, s.IsFlat)
    (rest : List Setting) :
    gathered (combined settings :: rest) = gathered settings ++ gathered rest := by
  unfold combined
  split
  · rename_i s only
    rw [only] at flat ⊢
    exact gathered_cons (flat s List.mem_cons_self) rest
  · rfl

mutual

theorem gathered_built (s : Setting) (rest : List Setting) :
    gathered (s.built :: rest) = s.flat ++ gathered rest := by
  cases s with
  | output | tee | maxCallDepth | tracing | none => rfl
  | group settings =>
    have inside := gathered_builtAll settings
    have flat := isFlat_flats settings
    rw [← inside] at flat
    have opened := gathered_combined flat rest
    rw [inside] at opened
    exact opened

theorem gathered_builtAll (settings : List Setting) :
    gathered (builtAll settings) = flats settings := by
  cases settings with
  | nil => rfl
  | cons s rest =>
    have later := gathered_builtAll rest
    have here := gathered_built s (builtAll rest)
    rw [later] at here
    exact here

end

theorem applyAll_append (s : Interpreter) (first second : List Setting) :
    applyAll s (first ++ second) = applyAll (applyAll s first) second := by
  induction first generalizing s with
  | nil => rfl
  | cons setting rest ih => exact ih (setting.apply s)

theorem apply_combined (s : Interpreter) (settings : List Setting) :
    (combined settings).apply s = applyAll s (gathered settings) := by
  unfold combined
  split
  · rename_i setting only
    rw [only]
    rfl
  · rfl

mutual

theorem apply_flat (s : Interpreter) (setting : Setting) :
    applyAll s setting.flat = setting.apply s := by
  cases setting with
  | output | tee | maxCallDepth | tracing | none => rfl
  | group settings => exact applyAll_flats s settings

theorem applyAll_flats (s : Interpreter) (settings : List Setting) :
    applyAll s (flats settings) = applyAll s settings := by
  cases settings with
  | nil => rfl
  | cons setting rest =>
    have here := apply_flat s setting
    have later := applyAll_flats (setting.apply s) rest
    rw [← here, ← applyAll_append] at later
    rw [here] at later
    exact later

end

def isOutput : Setting → Bool
  | output _ => true
  | _ => false

def device? : Setting → Option Nat
  | output i | tee i => some i
  | _ => .none

def depth? : Setting → Option Int
  | maxCallDepth depth => some depth
  | _ => .none

/-- The logger that is installed, where `none` takes away any there was. -/
def tracing? : Setting → Option (Option Nat)
  | tracing logger => some logger
  | _ => .none

def leavesOf : List Setting → List Nat
  | [] => []
  | s :: rest => if rest.any isOutput then leavesOf rest else s.device?.toList ++ leavesOf rest

/-- What is flushed on the way: every output flushes the devices that it replaces. -/
def flushedAfter (before : List Setting) : List Setting → List Nat
  | [] => []
  | s :: rest => (if s.isOutput then leavesOf before else []) ++ flushedAfter (before ++ [s]) rest

theorem leavesOf_output (list : List Setting) (i : Nat) : leavesOf (list ++ [output i]) = [i] := by
  induction list with
  | nil => rfl
  | cons s rest ih =>
    have replaced : (rest ++ [output i]).any isOutput = true := by simp [isOutput]
    simp only [List.cons_append, leavesOf, if_pos replaced, ih]

theorem leavesOf_concat (list : List Setting) {s : Setting} (other : s.isOutput = false) :
    leavesOf (list ++ [s]) = leavesOf list ++ s.device?.toList := by
  induction list with
  | nil =>
    have nothing : leavesOf [s] = s.device?.toList ++ [] := rfl
    rw [List.nil_append, nothing, List.append_nil]
    rfl
  | cons t rest ih =>
    have same : (rest ++ [s]).any isOutput = rest.any isOutput := by simp [other]
    simp only [List.cons_append, leavesOf, same, ih]
    split
    · rfl
    · exact (List.append_assoc _ _ _).symm

theorem flushedAfter_concat (before list : List Setting) (s : Setting) :
    flushedAfter before (list ++ [s]) =
      flushedAfter before list ++ if s.isOutput then leavesOf (before ++ list) else [] := by
  induction list generalizing before with
  | nil => simp [flushedAfter]
  | cons t rest ih =>
    simp only [List.cons_append, flushedAfter, ih, List.append_assoc]
    rfl

theorem flushEach_append (c : Console) (first second : List Nat) :
    (Output.flushEach c (first ++ second)).2 =
      (Output.flushEach (Output.flushEach c first).2 second).2 := by
  induction first generalizing c with
  | nil => rfl
  | cons i rest ih => exact ih (c.flush i).2

def fresh (console : Console) (list : List Setting) : Interpreter where
  machine.bench.out :=
    { leaves := leavesOf list, console := (Output.flushEach console (flushedAfter [] list)).2 }
  maxCallDepth := lastOr depth? 0 list
  tracing := lastOr tracing? .none list

theorem fresh_concat (console : Console) (list : List Setting) {s : Setting} (flat : s.IsFlat) :
    s.apply (fresh console list) = fresh console (list ++ [s]) := by
  have flushed := flushedAfter_concat [] list s
  rw [List.nil_append] at flushed
  simp only [fresh, flushed, lastOr_concat]
  cases s with
  | output i =>
    simp only [leavesOf_output, isOutput, if_true, flushEach_append]
    rfl
  | tee | maxCallDepth | tracing =>
    rw [leavesOf_concat list rfl]
    simp only [isOutput, Bool.false_eq_true, if_false, List.append_nil, device?, Option.toList]
    rfl
  | group | none => exact flat.elim

theorem applyAll_fresh (console : Console) {list : List Setting} (flat : ∀ s ∈ list, s.IsFlat) :
    applyAll (fresh console []) list = fresh console list := by
  induction list using List.reverseRecOn with
  | nil => rfl
  | append_singleton list s ih =>
    have first := ih fun t mem => flat t (List.mem_append_left _ mem)
    rw [applyAll_append, first]
    exact fresh_concat console list (flat s (List.mem_append_right _ List.mem_cons_self))

/-- What output is sent to once the setting is applied. -/
def wire (out : Option Conduit) : Setting → Option Conduit
  | output i => some (.outlet i)
  | tee i => some (.tee [out, some (.outlet i)])
  | _ => out

def rowOf : List Nat → Option Conduit
  | [] => .none
  | leaves => some (.inRow (leaves.map some))

theorem opened_rowOf (leaves : List Nat) (rest : List (Option Conduit)) :
    Conduit.opened (rowOf leaves :: rest) =
      (leaves.map some).map .single ++ Conduit.opened rest := by
  cases leaves with
  | nil => rfl
  | cons i leaves => exact Conduit.opened_inRow rest

theorem wire_tee (leaves : List Nat) (i : Nat) :
    wire (rowOf leaves) (tee i) = rowOf (leaves ++ [i]) := by
  have opened : Conduit.opened [rowOf leaves, some (.outlet i)] =
      ((leaves ++ [i]).map some).map .single := by
    rw [opened_rowOf, List.map_append, List.map_append]
    rfl
  have built := Conduit.tee_of_opened opened
  refine (congrArg some built).trans ?_
  cases leaves <;> rfl

/-- Tees on top of an output come to one row. -/
theorem wire_eq (list : List Setting) : list.foldl wire .none = rowOf (leavesOf list) := by
  induction list using List.reverseRecOn with
  | nil => rfl
  | append_singleton list s ih =>
    rw [List.foldl_append, ih]
    cases s with
    | output i =>
      rw [leavesOf_output]
      rfl
    | tee i =>
      rw [leavesOf_concat list rfl]
      exact wire_tee (leavesOf list) i
    | maxCallDepth | tracing | group | none =>
      rw [leavesOf_concat list rfl]
      exact congrArg rowOf (List.append_nil _).symm

theorem answer_rowOf {σ : Type} (outlets : Outlets σ) (leaves : List Nat) :
    ((rowOf leaves).getD .discard).answer outlets =
      (Conduit.inRow (leaves.map some)).answer outlets := by
  cases leaves with
  | nil =>
    funext call s
    cases call <;> rfl
  | cons => rfl

end Setting

open Setting (flats leavesOf wire)

namespace Output

/-- The output goes to these devices, and has called no others since `c`. -/
structure Feeds (devices : List Nat) (tracing : Option Nat) (c : Console) (o : Output) : Prop where
  leaves : o.leaves = devices
  fed : Console.Fed devices tracing c o.console

theorem feeds_keeps (leaves : List Nat) (c : Console) (tracing : Option Nat) :
    Keeps tracing (Feeds leaves tracing c) (Feeds leaves tracing c) := by
  apply Keeps.always
  · intro o r feeds
    obtain ⟨rfl, fed⟩ := feeds
    exact ⟨leaves_serve o r, fed.trans (fed_serve o r)⟩
  · intro o line installed feeds
    exact ⟨feeds.leaves, feeds.fed.trace line installed⟩

theorem Feeds.flush {leaves : List Nat} {tracing : Option Nat} {c : Console} {o : Output}
    (feeds : Feeds leaves tracing c o) : Feeds leaves tracing c o.flush.2 := by
  obtain ⟨rfl, fed⟩ := feeds
  exact ⟨rfl, fed.flush⟩

/-- The output answers as the sink does that its settings put together. -/
theorem answers_wired (list : List Setting) {o : Output} (leaves : o.leaves = leavesOf list)
    (calls : List SinkCall) :
    let run := answers (fun call o => Output.answer o call) calls o
    let direct :=
      answers (((list.foldl wire none).getD .discard).answer Console.outlets) calls o.console
    run.1 = direct.1 ∧ run.2.console = direct.2 := by
  have leads : Leads ((leavesOf list).map some) o.console.devices.length o o.console := by
    refine ⟨?_, rfl, rfl⟩
    rw [leaves, List.map_map]
    exact (List.map_id _).symm
  have related := answers_alike (R := Leads _ _) (fun call o c leads => leads.answer call) calls leads
  rw [Setting.wire_eq, Setting.answer_rowOf]
  exact ⟨related.1, related.2.console⟩

end Output

namespace Interpreter

variable {leaves : List Nat} {c : Console} {tracing : Option Nat}

theorem feeds_act (a : Act) {s : Interpreter}
    (holds : Holds tracing (Output.Feeds leaves tracing c) s) :
    Holds tracing (Output.Feeds leaves tracing c) (s.act a) := by
  have keeps := Output.feeds_keeps leaves c tracing
  have run (n : Node) : Holds tracing (Output.Feeds leaves tracing c) (s.runTree n).2 := by
    obtain ⟨traced, out⟩ := (runNode_keeps keeps n holds).2
    exact ⟨traced, out.flush⟩
  cases a with
  | run n => exact run n
  | exec src =>
    simp only [act, exec]
    cases read src with
    | ok n => exact run n
    | error e => exact holds.log keeps.trace _
  | push es => exact ⟨holds.tracing, holds.out⟩
  | pop =>
    simp only [act, popTop]
    split <;> exact ⟨holds.tracing, holds.out⟩

theorem feeds_after (s : Interpreter) (acts : List Act) :
    let o := s.machine.bench.out
    Holds s.tracing (Output.Feeds o.leaves s.tracing o.console) (s.after acts) := by
  intro o
  have start : Holds s.tracing (Output.Feeds o.leaves s.tracing o.console) s := ⟨rfl, rfl, .start⟩
  exact after_keeps (fun a _ _ holds => feeds_act a holds) start

theorem new_flats (console : Console) (settings : List Setting) :
    new { console } (flats settings) = new { console } settings :=
  Setting.applyAll_flats _ settings

theorem new_eq_fresh (console : Console) (settings : List Setting) :
    new { console } settings = Setting.fresh console (flats settings) := by
  rw [← new_flats]
  exact Setting.applyAll_fresh console (Setting.isFlat_flats settings)

/-- However they are grouped, settings come to their flat list, from left to right: every output
flushes and replaces the devices before it, a tee is added to them, and of the rest the last one
holds. From then on every write goes to these devices in order, and no other is ever called. What is
traced goes to the logger that was set last, and nothing is traced if that was none. -/
theorem settings_apply_in_order (console : Console) (settings : List Setting) :
    let list := flats settings
    let s := new { console } settings
    let start := s.machine.bench.out
    (Setting.combined (Setting.builtAll settings)).apply { machine.bench.out := { console } } = s ∧
    new { console } list = s ∧
    s = Setting.fresh console list ∧
    (∀ i, start.console.device i =
      (console.device i).flushedTimes ((Setting.flushedAfter [] list).count i)) ∧
    start.console.events = (((Setting.flushedAfter [] list).filter fun i =>
      (console.device i).canFlush).map .flush).reverse ++ console.events ∧
    (∀ calls,
      let run := answers (fun call o => Output.answer o call) calls start
      let direct :=
        answers (((list.foldl wire none).getD .discard).answer Console.outlets) calls start.console
      run.1 = direct.1 ∧ run.2.console = direct.2) ∧
    (∀ o : Output, o.leaves = leavesOf list →
      (∀ data, Console.Round data (leavesOf list) o.console (o.write data).2.console) ∧
      ∀ code, Console.Round (Output.codeBytes code) (leavesOf list) o.console
        (o.writeCode code).2.console) ∧
    ∀ acts,
      let installed := lastOr Setting.tracing? .none list
      let out := (s.after acts).machine.bench.out
      Output.Feeds (leavesOf list) installed start.console out ∧
      (∀ i, i ∉ leavesOf list → out.console.eventsOf i = start.console.eventsOf i) ∧
      (s.after acts).tracing = installed ∧
      Console.TracedTo installed start.console out.console := by
  intro list s start
  have built : s = Setting.fresh console list := new_eq_fresh console settings
  have leaves : start.leaves = leavesOf list := congrArg (·.machine.bench.out.leaves) built
  have traces : s.tracing = lastOr Setting.tracing? .none list := congrArg (·.tracing) built
  have flushed : start.console = (Output.flushEach console (Setting.flushedAfter [] list)).2 :=
    congrArg (·.machine.bench.out.console) built
  refine ⟨?_, new_flats console settings, built, ?_, ?_, ?_, ?_, ?_⟩
  · rw [Setting.apply_combined, Setting.gathered_builtAll]
    exact new_flats console settings
  · intro i
    rw [flushed]
    exact Output.flushEach_device console _ i
  · rw [flushed]
    exact Output.flushEach_events console _
  · exact Output.answers_wired list leaves
  · intro o same
    rw [← same]
    constructor
    · exact Output.round_write o
    · exact Output.round_writeCode o
  · intro acts installed out
    obtain ⟨still, feeds⟩ := feeds_after s acts
    rw [leaves, traces] at feeds
    refine ⟨feeds, ?_, still.trans traces, feeds.fed.traced⟩
    intro i other
    exact feeds.fed.spares other

/-- The first device is flushed when it is replaced, and not called again; that its flush fails is
not told. Of two loggers the one that was set last gets the trace. -/
theorem settings_apply_in_order_replaced :
    let settings : List Setting :=
      [.tee 0, .tracing (some 4), .group [.output 1, .none, .group [.tee 2]], .tracing (some 7)]
    let devices : List Device :=
      [{ kind := .flushing, flushes := [some (utf8 "full")] }, { kind := .flushing }, {}]
    let s := new { console := { devices } } settings
    leavesOf (flats settings) = [1, 2] ∧
      s.machine.bench.out.console.events = [.flush 0] ∧
      s.machine.bench.out.console.device 0 = { kind := .flushing } ∧
      ∀ acts, (s.after acts).tracing = some 7 ∧
        (s.after acts).machine.bench.out.console.eventsOf 0 = [.flush 0] ∧
        Console.TracedTo (some 7) { devices, events := [.flush 0] }
          (s.after acts).machine.bench.out.console := by
  intro settings devices s
  obtain ⟨-, -, -, device, events, -, -, later⟩ :=
    settings_apply_in_order { devices } settings
  refine ⟨rfl, events, device 0, fun acts => ?_⟩
  obtain ⟨-, spared, traces, traced⟩ := later acts
  exact ⟨traces, spared 0 (by decide), traced⟩

end Interpreter
end StackLang
