import Mathlib.Data.List.Basic
import StackLang.Proofs.Output.Answers
import StackLang.Proofs.Output.Rounds

/-! The count of codes written. A device takes a first part of the bytes, all of them unless there is
an error, and the count is the length of that part. One call is counted otherwise: a single byte
counts also where it is refused. -/
namespace StackLang

/-- The call offered a single byte in vain. -/
def Event.refusesByte : Event → Bool
  | .byte _ _ 0 => true
  | _ => false

namespace Event

theorem data_eq_take {e : Event} {i taken : Nat} {data : Text}
    (offers : e.offer = some (i, data, taken)) : e.data = data.take taken := by
  cases e with
  | trace | flush => cases offers
  | write | byte | character =>
    cases offers
    rfl

theorem not_refusesByte {e : Event} {i : Nat} {data : Text}
    (offers : e.offer = some (i, data, data.length)) : e.refusesByte = false := by
  cases e with
  | trace | flush => cases offers
  | write | character => rfl
  | byte j b taken =>
    cases offers
    rfl

end Event

namespace Device

/-- Of these offers none is taken short without an error; after an error there are no more. -/
def OwnsUp : Device → List Nat → Prop
  | _, [] => True
  | d, size :: rest => (d.answer size).error = none →
      (d.answer size).taken = size ∧ OwnsUp d.next rest

theorem Honest.ownsUp {d : Device} (honest : d.Honest) (sizes : List Nat) : d.OwnsUp sizes := by
  induction sizes generalizing d with
  | nil => trivial
  | cons size rest ih =>
    intro fine
    exact ⟨answer_of_honest honest fine, ih (honest.later (later_next d))⟩

theorem ownsUp_discard {d : Device} (discards : d.kind = .discard) (sizes : List Nat) :
    d.OwnsUp sizes := by
  induction sizes generalizing d with
  | nil => trivial
  | cons size rest ih =>
    intro _
    exact ⟨by rw [answer_discard discards], ih discards⟩

theorem inFull_discard {d : Device} (discards : d.kind = .discard) (sizes : List Nat) :
    d.InFull sizes := by
  induction sizes generalizing d with
  | nil => trivial
  | cons size rest ih => exact ⟨answer_discard discards size, ih discards⟩

theorem TakesAll.inFull {d : Device} (all : d.TakesAll) (sizes : List Nat) : d.InFull sizes := by
  induction sizes generalizing d with
  | nil => trivial
  | cons size rest ih => exact ⟨answer_of_takesAll all size, ih (all.later (later_next d))⟩

end Device

namespace Console

variable {c : Console} {i : Nat}

theorem inFull_call (size : Nat) (event : Nat → Event) (sizes : List Nat) :
    ((c.call i size event).2.device i).InFull sizes ↔ (c.device i).next.InFull sizes := by
  rw [device_call_self]
  split
  · rename_i discards
    apply iff_of_true
    · exact Device.inFull_discard discards sizes
    · exact Device.inFull_discard (d := (c.device i).next) discards sizes
  · exact Iff.rfl

theorem ownsUp_call {sizes : List Nat} (owns : (c.device i).next.OwnsUp sizes) (size : Nat)
    (event : Nat → Event) : ((c.call i size event).2.device i).OwnsUp sizes := by
  rw [device_call_self]
  split
  · rename_i discards
    exact Device.ownsUp_discard discards sizes
  · exact owns

end Console

namespace Output

variable {o p : Output} {i : Nat}

theorem taken_or_refused (i : Nat) (b : UInt8) {taken : Nat} (within : taken ≤ 1) :
    1 = taken + if (Event.byte i b taken).refusesByte then 1 else 0 := by
  rcases Nat.le_one_iff_eq_zero_or_eq_one.1 within with rfl | rfl
  · rfl
  · rfl

/-- A code goes out in one call, and what it took is what counts, unless it was a byte. -/
theorem writeCode_call (single : o.leaves = [i]) (code : Int32) :
    let answer := (o.console.device i).answer (codeBytes code).length
    ∃ event : Nat → Event, (∀ n, (event n).offer = some (i, codeBytes code, n)) ∧
      (o.writeCode code).2.leaves = [i] ∧
      (o.writeCode code).2.console = (o.console.call i (codeBytes code).length event).2 ∧
      (o.writeCode code).1 =
        ⟨answer.taken + if (event answer.taken).refusesByte then 1 else 0, answer.error⟩ := by
  intro answer
  have answered (event : Nat → Event) :
      (o.console.call i (codeBytes code).length event).1 = answer := Console.call_answer ..
  unfold writeCode
  split
  · have bytes := answered (.write i (codeBytes code))
    refine ⟨.write i (codeBytes code), fun _ => rfl, single, ?_, ?_⟩
    · change (o.write (codeBytes code)).2.console = _
      rw [write, single]
      rfl
    · change (o.write (codeBytes code)).1 = _
      rw [write, single]
      exact bytes
  · rename_i j found
    cases single.symm.trans (leaves_of_characterDevice? found)
    by_cases ascii : code < 0x80
    · have one : codeBytes code = [code.toUInt32.toUInt8] := if_pos ascii
      have within : answer.taken ≤ (codeBytes code).length := Device.answer_le _ _
      have byte := congrArg Written.error (answered (.byte i code.toUInt32.toUInt8))
      rw [one] at within byte ⊢
      rw [if_pos ascii]
      refine ⟨.byte i code.toUInt32.toUInt8, fun _ => rfl, single, rfl, ?_⟩
      rw [← taken_or_refused i _ within]
      exact congrArg (Written.mk 1) byte
    · have bytes : codeBytes code = encodeCode code := if_neg ascii
      have character := answered (.character i code)
      rw [bytes] at character ⊢
      rw [if_neg ascii]
      exact ⟨.character i code, fun _ => rfl, single, rfl, character⟩

def codeSizes (codes : List Int32) : List Nat := codes.map fun code => (codeBytes code).length

/-- What has come of offering codes to a device, with `n` bytes counted before: what it accepted, and
what the count says. -/
structure Accounts (o : Output) (i n : Nat) (codes : List Int32) (w : Written) (p : Output)
    (accepted : Text) : Prop where
  took : (o.console.device i).kind ≠ .discard →
    p.console.dataOf i = o.console.dataOf i ++ accepted
  cut : accepted <+: codes.flatMap codeBytes
  whole : w.error = none → accepted = codes.flatMap codeBytes
  fine : w.error = none ↔ (o.console.device i).InFull (codeSizes codes)
  count : w.taken = n + accepted.length +
    if w.error ≠ none ∧ (p.console.eventsOf i).getLast?.any Event.refusesByte then 1 else 0

namespace Accounts

variable {n : Nat} {w : Written} {accepted : Text} {code : Int32} {codes : List Int32}
  {event : Nat → Event} (offers : ∀ n, (event n).offer = some (i, codeBytes code, n))
  (console : p.console = (o.console.call i (codeBytes code).length event).2)

theorem nothing (o : Output) (i n : Nat) : Accounts o i n [] ⟨n, none⟩ o [] where
  took _ := (List.append_nil _).symm
  cut := List.prefix_rfl
  whole _ := rfl
  fine := ⟨fun _ => trivial, fun _ => rfl⟩
  count := by simp

include offers console

theorem failed {e : WriteError}
    (error : ((o.console.device i).answer (codeBytes code).length).error = some e) :
    let taken := ((o.console.device i).answer (codeBytes code).length).taken
    Accounts o i n (code :: codes)
      ⟨n + (taken + if (event taken).refusesByte then 1 else 0), some e⟩ p
      ((codeBytes code).take taken) := by
  intro taken
  have keeps : (o.console.device i).kind ≠ .discard := by
    intro discards
    rw [Device.answer_discard discards] at error
    cases error
  have within : taken ≤ (codeBytes code).length := Device.answer_le _ _
  have events : p.console.eventsOf i = o.console.eventsOf i ++ [event taken] := by
    rw [console, Console.eventsOf_call, if_neg keeps]
    exact Console.eventsOf_note_self _ (Event.device?_of_offer (offers _))
  constructor
  · intro _
    rw [Console.dataOf, events, List.flatMap_append, List.flatMap_singleton,
      Event.data_eq_take (offers taken)]
    rfl
  · exact (List.take_prefix taken _).trans (List.prefix_append _ _)
  · intro fine
    cases fine
  · constructor
    · intro fine
      cases fine
    · rintro ⟨full, _⟩
      rw [full] at error
      cases error
  · rw [events, List.getLast?_concat, List.length_take, Nat.min_eq_left within]
    simp [Nat.add_assoc]

theorem later {p' : Output}
    (full : (o.console.device i).answer (codeBytes code).length = ⟨(codeBytes code).length, none⟩)
    (rest : Accounts p i (n + (codeBytes code).length) codes w p' accepted) :
    Accounts o i n (code :: codes) w p' (codeBytes code ++ accepted) := by
  constructor
  · intro keeps
    have still : (p.console.device i).kind ≠ .discard := by
      rw [console, (Console.later_call ..).kind]
      exact keeps
    have first : p.console.dataOf i = o.console.dataOf i ++ codeBytes code := by
      rw [console, Console.dataOf_call_self _ (fun n => Event.device?_of_offer (offers n)) keeps,
        Event.data_eq_take (offers _), full, List.take_length]
    rw [rest.took still, first, List.append_assoc]
  · exact (List.prefix_append_right_inj _).2 rest.cut
  · intro fine
    rw [rest.whole fine]
    rfl
  · rw [rest.fine, console, Console.inFull_call]
    constructor
    · exact fun after => ⟨full, after⟩
    · exact And.right
  · rw [rest.count, List.length_append, ← Nat.add_assoc]

end Accounts

/-- Codes are accounted for, as long as the device owns up to what it does not take. -/
theorem accounts_writeCodesAfter (single : o.leaves = [i]) (n : Nat) (codes : List Int32)
    (honest : (o.console.device i).OwnsUp (codeSizes codes)) :
    ∃ accepted, Accounts o i n codes (o.writeCodesAfter n codes).1 (o.writeCodesAfter n codes).2
      accepted := by
  induction codes generalizing o n with
  | nil => exact ⟨[], .nothing o i n⟩
  | cons code rest ih =>
    obtain ⟨event, offers, leaves, console, answer⟩ := writeCode_call single code
    unfold writeCodesAfter
    generalize o.writeCode code = written at leaves console answer ⊢
    obtain ⟨w, p⟩ := written
    cases answer
    cases error : ((o.console.device i).answer (codeBytes code).length).error with
    | some e => exact ⟨_, .failed offers console error⟩
    | none =>
      obtain ⟨whole, owns⟩ := honest error
      have full : (o.console.device i).answer (codeBytes code).length =
          ⟨(codeBytes code).length, none⟩ := congr (congrArg Written.mk whole) error
      have after : (p.console.device i).OwnsUp (codeSizes rest) := by
        rw [console]
        exact Console.ownsUp_call owns _ _
      obtain ⟨accepted, accounts⟩ := ih leaves (n + (codeBytes code).length) after
      have counted : (event (codeBytes code).length).refusesByte = false :=
        Event.not_refusesByte (offers _)
      simp only [whole, counted]
      exact ⟨_, accounts.later offers console full⟩

def encodings (codes : List Int32) : Text :=
  codes.flatMap fun code => String.utf8EncodeChar (Char.ofNat code.toInt.toNat)

theorem codeBytes_eq {code : Int32} (valid : isCode code = true) :
    codeBytes code = String.utf8EncodeChar (Char.ofNat code.toInt.toNat) := by
  obtain ⟨c, rfl⟩ := exists_codeOf valid
  rw [codeBytes_codeOf, encode_eq, toInt_codeOf, Int.toNat_natCast, Char.ofNat_toNat]

theorem encodings_eq {codes : List Int32} (valid : ∀ code ∈ codes, isCode code = true) :
    encodings codes = codes.flatMap codeBytes :=
  List.flatMap_congr fun code mem => (codeBytes_eq (valid code mem)).symm

/-- The count of codes written is the number of bytes that the device accepted, and one more where it
refused a single byte; what it accepted is the first part of the encodings, and without an error all
of them. -/
theorem codes_are_accounted_for {codes : List Int32} (single : o.leaves = [i])
    (valid : ∀ code ∈ codes, isCode code = true)
    (honest : (o.console.device i).OwnsUp (codeSizes codes)) :
    let w := (o.writeCodes codes).1
    let p := (o.writeCodes codes).2
    ∃ accepted : Text,
      ((o.console.device i).kind ≠ .discard →
        p.console.dataOf i = o.console.dataOf i ++ accepted) ∧
      accepted <+: encodings codes ∧
      (w.error = none ↔
        (o.console.device i).InFull (codeSizes codes)) ∧
      (w.error = none → accepted = encodings codes) ∧
      w.taken = accepted.length +
        (if w.error ≠ none ∧ (p.console.eventsOf i).getLast?.any Event.refusesByte then 1 else 0) ∧
      ((o.console.device i).TakesAll →
        accepted = encodings codes ∧ w = ⟨(encodings codes).length, none⟩) := by
  intro w p
  obtain ⟨accepted, accounts⟩ := accounts_writeCodesAfter single 0 codes honest
  have bytes := encodings_eq valid
  have count : w.taken = _ := accounts.count
  rw [Nat.zero_add] at count
  have whole : w.error = none → accepted = encodings codes := by
    rw [bytes]
    exact accounts.whole
  refine ⟨accepted, accounts.took, bytes ▸ accounts.cut, accounts.fine, whole, count, ?_⟩
  intro all
  have fine : w.error = none := accounts.fine.2 (all.inFull _)
  rw [if_neg fun refused => refused.1 fine, Nat.add_zero] at count
  rw [whole fine] at count
  exact ⟨whole fine, congr (congrArg Written.mk count) fine⟩

def refusing (script : List Reply) : Output :=
  { leaves := [0]
    console.devices := [{ kind := .characters, script := script ++ [.refuse (utf8 "full")] }] }

theorem honest_refusing {script : List Reply} (all : ∀ r ∈ script, r = .all) :
    ((refusing script).console.device 0).Honest := by
  intro r mem size short
  rcases List.mem_append.1 mem with before | last
  · rw [all r before] at short
    exact absurd short (Nat.lt_irrefl size)
  · cases List.mem_singleton.1 last
    exact nofun

/-- The third code is a byte and refused: three bytes are there, and the count is four. -/
theorem codes_are_accounted_for_refused :
    let o := refusing [.all, .all]
    let codes : List Int32 := [0x68, 0xE9, 0x61, 0x62]
    o.leaves = [0] ∧ (∀ code ∈ codes, isCode code = true) ∧
      (o.console.device 0).OwnsUp (codeSizes codes) ∧
      ∃ accepted : Text, (o.writeCodes codes).2.console.dataOf 0 = accepted ∧
        accepted <+: encodings codes ∧ accepted = [0x68, 0xC3, 0xA9] ∧
        (o.writeCodes codes).1 = ⟨accepted.length + 1, some (.device (utf8 "full"))⟩ := by
  intro o codes
  have valid : ∀ code ∈ codes, isCode code = true := List.all_eq_true.1 (by decide)
  have honest : (o.console.device 0).Honest := honest_refusing (by decide)
  have owns := honest.ownsUp (codeSizes codes)
  obtain ⟨accepted, took, cut, -⟩ := codes_are_accounted_for (o := o) (i := 0) rfl valid owns
  have data : (o.writeCodes codes).2.console.dataOf 0 = [0x68, 0xC3, 0xA9] := by decide +kernel
  have same : accepted = [0x68, 0xC3, 0xA9] := (took nofun).symm.trans data
  refine ⟨rfl, valid, owns, accepted, took nofun, cut, same, ?_⟩
  rw [same]
  decide +kernel

/-- Nothing has been accepted, and yet the count is one. -/
theorem refused_byte_counts :
    let o := refusing []
    isCode 0x61 = true ∧ (o.console.device 0).Honest ∧
      (o.writeCodes [0x61]).1 = ⟨1, some (.device (utf8 "full"))⟩ ∧
      (o.writeCodes [0x61]).2.console.dataOf 0 = [] ∧
      (o.writeCodes [0x61]).1.taken ≠ ((o.writeCodes [0x61]).2.console.dataOf 0).length := by
  intro o
  have honest : (o.console.device 0).Honest := honest_refusing (List.forall_mem_nil _)
  exact ⟨by decide, honest, by decide +kernel, by decide +kernel, by decide +kernel⟩

end Output
end StackLang
