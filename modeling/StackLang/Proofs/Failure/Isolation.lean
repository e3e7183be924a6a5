import StackLang.Failure

/-! Isolation. How a computation ended is read off the failure that comes out, so a failure that
already records an abort is taken for a fresh one: a normal return is left as it is where its failure
records none, and each isolation around another puts a fault of its own around the one abort. -/
namespace StackLang

namespace Failure

/-- The computations that never returned, as the chain records them, outermost first. -/
def aborts (f : Failure) : List Abort := f.chain.filterMap abort?

theorem firstAbort?_eq (f : Failure) : f.firstAbort? = f.aborts.head? :=
  List.head?_filterMap.symm

theorem aborts_fault (site : Site) (f : Failure) : (fault site f).aborts = f.aborts :=
  List.filterMap_cons_none rfl

theorem chain_eq_cons (f : Failure) : ∃ later, f.chain = f :: later := by
  cases f <;> exact ⟨_, rfl⟩

theorem head?_aborts {f : Failure} {a : Abort} (fresh : f.abort? = some a) :
    f.aborts.head? = some a := by
  obtain ⟨later, chain⟩ := chain_eq_cons f
  rw [aborts, chain, List.filterMap_cons_some fresh, List.head?_cons]

/-- The failure records an abort if and only if a look for panics and exits finds one. -/
theorem records_iff (f : Failure) : (f.isPanic || f.isExit) = true ↔ f.aborts ≠ [] := by
  unfold isPanic isExit
  rw [firstAbort?_eq]
  cases f.aborts with
  | nil => simp
  | cons a rest => cases left : a.hasLeft <;> simp [left]

theorem fault_ne (site : Site) (f : Failure) : fault site f ≠ f := by
  intro same
  have size := congrArg sizeOf same
  simp at size

def wrapped (names : List Text) (f : Failure) : Failure :=
  names.foldr (fun name inner => .fault { stage := .run, op := name } inner) f

theorem aborts_wrapped (names : List Text) (f : Failure) : (wrapped names f).aborts = f.aborts := by
  induction names with
  | nil => rfl
  | cons name names ih => exact (aborts_fault _ _).trans ih

end Failure

namespace Ending
open Failure

def Aborts (e : Ending) : Prop := ∀ result, e ≠ .returned result

/-- The failure is an abort of this name, and tells how the computation ended and why. -/
structure Records (name : Text) (e : Ending) (f : Failure) : Prop where
  abort : ∃ a, f.abort? = some a ∧ a.name = name ∧ (a.hasLeft = true ↔ e = .left) ∧
    (a.trace ≠ [] ↔ e ≠ .left)
  reason {value : Failure} {trace : { t : Text // t ≠ [] }} (given : e = .brokeWith value trace) :
    value.chain <:+ f.chain

theorem recover_records (name : Text) {e : Ending} (aborts : e.Aborts) :
    ∃ f, e.recover name = some f ∧ Records name e f := by
  cases e with
  | returned result => exact absurd rfl (aborts result)
  | broke value trace =>
    refine ⟨.broke name value trace, rfl, ⟨⟨name, false, trace⟩, rfl, rfl, ?_, ?_⟩, nofun⟩
    · simp
    · simp [trace.2]
  | brokeWith value trace =>
    refine ⟨.brokeWith name value trace, rfl, ⟨⟨name, false, trace⟩, rfl, rfl, ?_, ?_⟩, ?_⟩
    · simp
    · simp [trace.2]
    · intro _ _ given
      cases given
      exact List.suffix_cons _ _
  | left => exact ⟨.left name, rfl, ⟨⟨name, true, []⟩, rfl, rfl, by simp, by simp⟩, nofun⟩

theorem isolate_unrecorded (name : Text) {f : Failure} (unrecorded : f.aborts = []) :
    (returned (some f)).isolate name = some f := by
  have finds : ¬ (f.isPanic || f.isExit) = true := fun found => (records_iff f).1 found unrecorded
  simp only [isolate, recover, Option.map_some, if_neg finds]

theorem isolate_recorded (name : Text) {e : Ending} {f : Failure} (given : e.recover name = some f)
    (recorded : f.aborts ≠ []) : e.isolate name = some (.fault { stage := .run, op := name } f) := by
  have finds : (f.isPanic || f.isExit) = true := (records_iff f).2 recorded
  simp only [isolate, given, Option.map_some, if_pos finds]

theorem isolate_returned_iff (name : Text) (result : Option Failure) :
    (returned result).isolate name = result ↔ ∀ f ∈ result, f.aborts = [] := by
  cases result with
  | none => simp [isolate, recover]
  | some f =>
    constructor
    · intro same g mem
      cases mem
      apply Classical.not_not.1
      intro recorded
      have wrapped := isolate_recorded name (e := .returned (some f)) rfl recorded
      exact fault_ne _ f (Option.some.inj (wrapped.symm.trans same))
    · intro unrecorded
      exact isolate_unrecorded name (unrecorded f rfl)

/-- The failure is a fault of the run around an abort of this name. Just one look for a panic or an
exit finds what happened, there is a trace of a panic, and what caused it is still in the chain. -/
structure Tells (name : Text) (e : Ending) (f : Failure) : Prop where
  around : ∃ inner a, f = .fault { stage := .run, op := name } inner ∧ inner.abort? = some a ∧
    a.name = name
  exit : f.isExit = true ↔ e = .left
  panic : f.isPanic = true ↔ e ≠ .left
  trace : f.trace ≠ [] ↔ e ≠ .left
  reason {value : Failure} {trace : { t : Text // t ≠ [] }} (given : e = .brokeWith value trace) :
    value.chain <:+ f.chain ∧ ∀ c ∈ value.causes, c ∈ f.causes

theorem isolate_tells (name : Text) {e : Ending} (aborts : e.Aborts) :
    ∃ f, e.isolate name = some f ∧ f.aborts ≠ [] ∧ Tells name e f := by
  obtain ⟨inner, recovered, ⟨a, fresh, named, exit, trace⟩, reason⟩ := recover_records name aborts
  let f : Failure := .fault { stage := .run, op := name } inner
  have first : f.aborts.head? = some a := by
    rw [aborts_fault]
    exact head?_aborts fresh
  have recorded : f.aborts ≠ [] := by
    intro none
    rw [none] at first
    cases first
  have tells : Tells name e f := by
    constructor
    · exact ⟨inner, a, rfl, fresh, named⟩
    · rw [isExit, firstAbort?_eq, first]
      exact exit
    · rw [isPanic, firstAbort?_eq, first, Ne, ← exit]
      simp
    · rw [Failure.trace, firstAbort?_eq, first]
      exact trace
    · intro value trace given
      have later : value.chain <:+ f.chain := (reason given).trans (List.suffix_cons _ _)
      refine ⟨later, fun c mem => ?_⟩
      exact (later.sublist.filterMap _).subset mem
  have isolated := isolate_recorded name recovered (aborts_fault _ inner ▸ recorded)
  exact ⟨f, isolated, recorded, tells⟩

/-- Isolation inside isolation, the innermost name last. -/
def isolateWithin (inner : Text) (e : Ending) : List Text → Option Failure
  | [] => e.isolate inner
  | outer :: names => (returned (isolateWithin inner e names)).isolate outer

theorem isolateWithin_wraps {inner : Text} {e : Ending} {f : Failure}
    (isolated : e.isolate inner = some f) (recorded : f.aborts ≠ []) (names : List Text) :
    isolateWithin inner e names = some (wrapped names f) := by
  induction names with
  | nil => exact isolated
  | cons outer names ih =>
    apply isolate_recorded
    · exact ih
    · exact aborts_wrapped names f ▸ recorded

/-- Isolation leaves a normal return as it is where the failure records no abort, puts a fault around
one that does, and makes a fault around a fresh abort of all that never returned. -/
theorem isolation_tells_how_it_ended (name : Text) (e : Ending) (outer : List Text) :
    (∀ result, e = .returned result →
      (e.isolate name = result ↔ ∀ f ∈ result, f.aborts = []) ∧
        ∀ f ∈ result, f.aborts ≠ [] →
          e.isolate name = some (.fault { stage := .run, op := name } f)) ∧
      (e.Aborts → ∃ f, e.isolate name = some f ∧ Tells name e f ∧
        isolateWithin name e outer = some (wrapped outer f) ∧
        (wrapped outer f).aborts = f.aborts) := by
  constructor
  · rintro result rfl
    refine ⟨isolate_returned_iff name result, fun f mem recorded => ?_⟩
    cases mem
    exact isolate_recorded name rfl recorded
  · intro aborts
    obtain ⟨f, isolated, recorded, tells⟩ := isolate_tells name aborts
    exact ⟨f, isolated, tells, isolateWithin_wraps isolated recorded outer, aborts_wrapped outer f⟩

/-- A failure that records a panic is wrapped again, though the computation returned it. -/
theorem isolation_wraps_again :
    let inner := utf8 "inner"
    let outer := utf8 "outer"
    let f : Failure := .fault { stage := .run, op := inner } (.broke inner (utf8 "x") (utf8 "t"))
    let panics : Ending := .broke (utf8 "x") ⟨utf8 "t", by decide⟩
    panics.isolate inner = some f ∧
      (returned (some f)).isolate outer = some (.fault { stage := .run, op := outer } f) ∧
      (returned (some f)).isolate outer ≠ some f ∧
      isolateWithin inner panics [outer] ≠ panics.isolate inner := by
  decide +kernel

end Ending
end StackLang
