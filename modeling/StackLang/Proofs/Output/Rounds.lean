import StackLang.Proofs.Output.Chunks
import StackLang.Proofs.Output.Tally

/-! Who is offered what is written. Every write of an output is one round: its devices are offered
the same bytes from left to right, up to the first that does not take the whole of them. Nobody else
is ever called. -/
namespace StackLang

theorem Event.device?_of_offer {e : Event} {i taken : Nat} {data : Text}
    (offers : e.offer = some (i, data, taken)) : e.device? = some i := by
  cases e with
  | trace | flush => cases offers
  | write | byte | character =>
    cases offers
    rfl

theorem Event.isWrite_of_offer {e : Event} {i taken : Nat} {data : Text}
    (offers : e.offer = some (i, data, taken)) : e.isWrite = true := by
  cases e with
  | trace | flush => cases offers
  | write | byte | character => rfl

namespace Console

/-- The devices are offered the data in order, by whatever call, up to the first that does not take
all of it. -/
inductive Round (data : Text) : List Nat → Console → Console → Prop
  | done (c : Console) : Round data [] c c
  | goes {i : Nat} {rest : List Nat} {c d : Console} {event : Nat → Event}
    (offers : ∀ n, (event n).offer = some (i, data, n))
    (whole : (c.device i).answer data.length = ⟨data.length, none⟩)
    (later : Round data rest (c.call i data.length event).2 d) : Round data (i :: rest) c d
  | stops {i : Nat} {rest : List Nat} {c : Console} {event : Nat → Event}
    (offers : ∀ n, (event n).offer = some (i, data, n))
    (short : (c.device i).answer data.length ≠ ⟨data.length, none⟩) :
    Round data (i :: rest) c (c.call i data.length event).2

/-- Since `c` these devices were written to in rounds and flushed, with lines of the trace in
between. All of these went to the one logger that was installed. -/
inductive Fed (leaves : List Nat) (tracing : Option Nat) (c : Console) : Console → Prop
  | start : Fed leaves tracing c c
  | write {data : Text} {d e : Console} (before : Fed leaves tracing c d)
    (round : Round data leaves d e) : Fed leaves tracing c e
  | flush {d : Console} (before : Fed leaves tracing c d) :
    Fed leaves tracing c (Output.flushEach d leaves).2
  | trace {d : Console} (before : Fed leaves tracing c d) (line : TraceLine)
    (installed : tracing = some line.logger) : Fed leaves tracing c (d.note (.trace line))

variable {leaves : List Nat} {tracing : Option Nat} {data : Text} {c d e : Console} {i : Nat}

theorem Fed.trans (first : Fed leaves tracing c d) (second : Fed leaves tracing d e) :
    Fed leaves tracing c e := by
  induction second with
  | start => exact first
  | write before round ih => exact .write ih round
  | flush before ih => exact .flush ih
  | trace before line installed ih => exact .trace ih line installed

theorem round_call (event : Nat → Event) (offers : ∀ n, (event n).offer = some (i, data, n))
    (c : Console) : Round data [i] c (c.call i data.length event).2 := by
  by_cases whole : (c.device i).answer data.length = ⟨data.length, none⟩
  · exact .goes offers whole (.done _)
  · exact .stops offers whole

theorem Round.spares (round : Round data leaves c d) (other : i ∉ leaves) :
    d.eventsOf i = c.eventsOf i := by
  have call {j : Nat} {c : Console} {event : Nat → Event} (apart : j ≠ i)
      (offers : ∀ n, (event n).offer = some (j, data, n)) :
      (c.call j data.length event).2.eventsOf i = c.eventsOf i :=
    (SameAt.call_other apart data.length fun n => Event.device?_of_offer (offers n)).events
  induction round with
  | done c => rfl
  | goes offers whole later ih =>
    have apart := List.ne_of_not_mem_cons other
    exact (ih (List.not_mem_of_not_mem_cons other)).trans (call (Ne.symm apart) offers)
  | stops offers short => exact call (Ne.symm (List.ne_of_not_mem_cons other)) offers

theorem flushEach_spares (leaves : List Nat) (c : Console) (other : i ∉ leaves) :
    (Output.flushEach c leaves).2.eventsOf i = c.eventsOf i := by
  induction leaves generalizing c with
  | nil => rfl
  | cons j rest ih =>
    have apart := List.ne_of_not_mem_cons other
    have first : (c.flush j).2.eventsOf i = c.eventsOf i := by
      simp only [flush]
      split
      · exact eventsOf_note_other c (by simpa [Event.device?] using Ne.symm apart)
      · rfl
    exact (ih (c.flush j).2 (List.not_mem_of_not_mem_cons other)).trans first

theorem Fed.spares (fed : Fed leaves tracing c d) (other : i ∉ leaves) :
    d.eventsOf i = c.eventsOf i := by
  induction fed with
  | start => rfl
  | write before round ih => exact (round.spares other).trans ih
  | flush before ih => exact (flushEach_spares leaves _ other).trans ih
  | trace before line installed ih => exact (eventsOf_trace _ line i).trans ih

/-- Since `c` no logger but the installed one has got a line. -/
def TracedTo (tracing : Option Nat) (c d : Console) : Prop :=
  ∃ log, d.events = log ++ c.events ∧ ∀ line, .trace line ∈ log → tracing = some line.logger

theorem TracedTo.refl (tracing : Option Nat) (c : Console) : TracedTo tracing c c :=
  ⟨[], rfl, fun _ mem => absurd mem List.not_mem_nil⟩

theorem TracedTo.trans (first : TracedTo tracing c d) (second : TracedTo tracing d e) :
    TracedTo tracing c e := by
  obtain ⟨log, events, traced⟩ := first
  obtain ⟨later, events', traced'⟩ := second
  refine ⟨later ++ log, by rw [events', events, List.append_assoc], fun line mem => ?_⟩
  rcases List.mem_append.1 mem with here | there
  · exact traced' line here
  · exact traced line there

theorem Since.tracedTo {kind : Event → Bool} (since : Since kind c d)
    (silent : ∀ line, kind (.trace line) = false) : TracedTo tracing c d := by
  obtain ⟨log, all, events⟩ := since
  refine ⟨log, events, fun line mem => ?_⟩
  have traces := all _ mem
  rw [silent line] at traces
  cases traces

theorem Round.since (round : Round data leaves c d) : Since Event.isWrite c d := by
  have isWrite {j : Nat} {event : Nat → Event} (offers : ∀ n, (event n).offer = some (j, data, n))
      (n : Nat) : (event n).isWrite = true := Event.isWrite_of_offer (offers n)
  induction round with
  | done c => exact .refl _ c
  | goes offers whole later ih => exact Since.trans ((Since.refl _ _).call _ _ (isWrite offers)) ih
  | stops offers short => exact (Since.refl _ _).call _ _ (isWrite offers)

theorem since_flushEach (c : Console) (leaves : List Nat) :
    Since Event.isCall c (Output.flushEach c leaves).2 := by
  refine ⟨_, fun e mem => ?_, Output.flushEach_events c leaves⟩
  obtain ⟨i, -, rfl⟩ := List.mem_map.1 (List.mem_reverse.1 mem)
  rfl

theorem Fed.traced (fed : Fed leaves tracing c d) : TracedTo tracing c d := by
  induction fed with
  | start => exact .refl tracing c
  | write before round ih => exact ih.trans (round.since.tracedTo fun _ => rfl)
  | flush before ih => exact ih.trans ((since_flushEach _ leaves).tracedTo fun _ => rfl)
  | trace before line installed ih =>
    refine ih.trans ⟨[.trace line], rfl, fun other mem => ?_⟩
    cases List.mem_singleton.1 mem
    exact installed

end Console

namespace Output

open Console (Round Fed)

theorem round_writeEach (data : Text) (leaves : List Nat) (c : Console) :
    Round data leaves c (writeEach c data leaves).2 := by
  induction leaves generalizing c with
  | nil => exact .done c
  | cons i rest ih =>
    have answer := Console.call_answer c i data.length (.write i data)
    have others := ih (c.write i data).2
    unfold writeEach
    rw [Console.write] at others ⊢
    cases called : c.call i data.length (.write i data) with
    | mk w d =>
      rw [called] at answer others
      obtain ⟨taken, error⟩ := w
      have same : (c.call i data.length (.write i data)).2 = d := congrArg Prod.snd called
      have stopped (short : (⟨taken, error⟩ : Written) ≠ ⟨data.length, none⟩) :
          Round data (i :: rest) c d := by
        rw [← same]
        apply Round.stops (fun _ => rfl)
        rw [← answer]
        exact short
      cases error with
      | some e =>
        apply stopped
        intro whole
        cases whole
      | none =>
        by_cases whole : taken = data.length
        · simp only [if_pos whole]
          have offers (n : Nat) : (Event.write i data n).offer = some (i, data, n) := rfl
          apply Round.goes offers
          · rw [← answer, whole]
          · rw [same]
            exact others
        · simp only [if_neg whole]
          exact stopped fun all => whole (congrArg Written.taken all)

theorem round_write (o : Output) (data : Text) :
    Round data o.leaves o.console (o.write data).2.console := by
  obtain ⟨leaves, tally, c⟩ := o
  match leaves with
  | [i] => exact Console.round_call (.write i data) (fun _ => rfl) c
  | [] => exact round_writeEach data [] c
  | i :: j :: rest => exact round_writeEach data (i :: j :: rest) c

theorem round_writeCode (o : Output) (code : Int32) :
    Round (codeBytes code) o.leaves o.console (o.writeCode code).2.console := by
  unfold writeCode
  split
  · exact round_write o _
  · rename_i i found
    rw [leaves_of_characterDevice? found]
    unfold codeBytes
    by_cases ascii : code < 0x80
    · simp only [if_pos ascii]
      exact Console.round_call (.byte i code.toUInt32.toUInt8) (fun _ => rfl) o.console
    · simp only [if_neg ascii]
      exact Console.round_call (.character i code) (fun _ => rfl) o.console

theorem fed_writeCodesAfter {tracing : Option Nat} (o : Output) (n : Nat) (codes : List Int32) :
    Fed o.leaves tracing o.console (o.writeCodesAfter n codes).2.console := by
  induction codes generalizing o n with
  | nil => exact .start
  | cons code rest ih =>
    have round := round_writeCode o code
    have same := leaves_writeCode o code
    unfold writeCodesAfter
    generalize o.writeCode code = written at round same ⊢
    obtain ⟨⟨k, error⟩, p⟩ := written
    have first : Fed o.leaves tracing o.console p.console := .write .start round
    cases error with
    | some e => exact first
    | none =>
      have later := ih p (n + k)
      rw [same] at later
      exact first.trans later

theorem fed_serve {tracing : Option Nat} (o : Output) (r : Request) :
    Fed o.leaves tracing o.console (o.serve r).2.console := by
  cases r with
  | text data => exact .write .start (round_write o data)
  | codes cs => exact fed_writeCodesAfter o 0 cs

end Output
end StackLang
