import StackLang.Proofs.Output.Delivery
import StackLang.Proofs.Text.Encoding

/-! Characters as chunks. Codes go out one after the other, each as the UTF-8 bytes of its
character, whichever calls a device has for them; and an output that takes everything copies each
chunk to each of its devices. -/
namespace StackLang

def codeOf (c : Char) : Int32 := .ofNat c.toNat

theorem toInt_codeOf (c : Char) : (codeOf c).toInt = c.toNat := by
  have top := Glyph.char_lt c
  exact Int32.toInt_ofNat_of_lt (by omega)

theorem isCode_codeOf (c : Char) : isCode (codeOf c) = true := by
  have valid : c.toNat.isValidChar := c.valid
  simp [isCode, toInt_codeOf, valid]

theorem exists_codeOf {code : Int32} (valid : isCode code = true) : ∃ c, code = codeOf c := by
  simp only [isCode, Bool.and_eq_true, decide_eq_true_eq] at valid
  obtain ⟨least, valid⟩ := valid
  refine ⟨Char.ofNat code.toInt.toNat, ?_⟩
  have value : (Char.ofNat code.toInt.toNat).toNat = code.toInt.toNat := by
    rw [Char.ofNat, dif_pos valid]
    rfl
  apply Int32.toInt_inj.1
  rw [toInt_codeOf, value]
  omega

theorem Output.codeBytes_codeOf (c : Char) : codeBytes (codeOf c) = encode c := by
  have ascii : codeOf c < 0x80 ↔ c.toNat < 0x80 := by
    have value : (0x80 : Int32).toInt = 0x80 := rfl
    rw [Int32.lt_iff_toInt_lt, toInt_codeOf, value]
    omega
  unfold codeBytes
  by_cases small : c.toNat < 0x80
  · have byte : (codeOf c).toUInt32.toUInt8 = .ofNat c.toNat := by
      rw [codeOf, Int32.toUInt32_ofNat', UInt32.toUInt8_ofNat']
    simp only [ascii, if_pos small, byte, encode]
  · have valid : c.toNat.isValidChar := c.valid
    simp [ascii, small, encodeCode, toInt_codeOf, valid]

namespace Event

def offer : Event → Option (Nat × Text × Nat)
  | .write i data taken => some (i, data, taken)
  | .byte i b taken => some (i, [b], taken)
  | .character i code taken => some (i, encodeCode code, taken)
  | .trace _ | .flush _ => none

def takenBy (i : Nat) : Nat × Text × Nat → Text
  | (j, data, taken) => if j = i then data.take taken else []

theorem data_of_offer (e : Event) (i : Nat) :
    (if e.device? = some i then e.data else []) = e.offer.toList.flatMap (takenBy i) := by
  cases e with
  | trace => rfl
  | flush j => simp [data, offer]
  | write j | byte j | character j => simp [device?, data, offer, takenBy]

end Event

namespace Console

theorem dataOf_eq_offers (c : Console) (i : Nat) :
    c.dataOf i = (c.events.filterMap Event.offer).reverse.flatMap (Event.takenBy i) := by
  obtain ⟨devices, events⟩ := c
  induction events with
  | nil => rfl
  | cons e events ih =>
    have noted := dataOf_note ⟨devices, events⟩ e i
    rw [ih, Event.data_of_offer] at noted
    refine noted.trans ?_
    rw [List.filterMap_cons]
    cases e.offer <;> simp

/-- The devices are the same, and so are the bytes offered to each and taken by it, whatever calls
were used. -/
structure SameOffers (c d : Console) : Prop where
  devices : d.devices = c.devices
  offers : d.events.filterMap Event.offer = c.events.filterMap Event.offer

theorem SameOffers.refl (c : Console) : SameOffers c c := ⟨rfl, rfl⟩

/-- Two calls that offer the same bytes are answered alike. -/
theorem SameOffers.call {c d : Console} (same : SameOffers c d) (i size : Nat)
    (event event' : Nat → Event) (alike : ∀ n, (event' n).offer = (event n).offer) :
    SameAnswer SameOffers (c.call i size event) (d.call i size event') := by
  have device := device_eq same.devices i
  refine ⟨by rw [call_answer, call_answer, device], ?_⟩
  by_cases discards : (c.device i).kind = .discard
  · simp only [Console.call, device, if_pos discards]
    exact same
  · simp only [Console.call, device, if_neg discards]
    refine ⟨by rw [same.devices], ?_⟩
    simp only [List.filterMap_cons, alike, same.offers]

theorem steady_sameOffers : Steady SameOffers where
  devices same := same.devices
  call same i size event := (same.call i size event event fun _ => rfl).2
  trace same _ := ⟨⟨same.devices, same.offers⟩, ⟨same.devices, same.offers⟩⟩

theorem SameOffers.dataOf {c d : Console} (same : SameOffers c d) (i : Nat) :
    d.dataOf i = c.dataOf i := by
  rw [dataOf_eq_offers, dataOf_eq_offers, same.offers]

end Console

namespace Output
open Console (SameOffers)

/-- Writes one chunk after the other, up to the first error. -/
def writeChunks (o : Output) : List Text → Option WriteError × Output
  | [] => (none, o)
  | chunk :: rest =>
    match o.write chunk with
    | (⟨_, none⟩, p) => p.writeChunks rest
    | (⟨_, some e⟩, p) => (some e, p)

theorem tally_of_characterDevice? {o : Output} {i : Nat} (found : o.characterDevice? = some i) :
    o.tally = none := by
  unfold characterDevice? at found
  split at found
  · rename_i tally
    exact tally
  · cases found

/-- Whatever the call is, a single device answers it as it answers a write. -/
theorem call_chunk {o p : Output} (same : Paired SameOffers o p) {i : Nat} (leaves : p.leaves = [i])
    (tally : p.tally = none) {data : Text} (event : Nat → Event)
    (offers : ∀ n, (event n).offer = some (i, data, n)) :
    (p.console.call i data.length event).1.error = (o.write data).1.error ∧
      Paired SameOffers (o.write data).2
        { p with console := (p.console.call i data.length event).2 } := by
  obtain ⟨answer, related⟩ := same.console.call i data.length (.write i data) event offers
  have written : o.write data = ((o.console.write i data).1,
      { o with console := (o.console.write i data).2 }) := by
    rw [write, ← same.leaves, ← same.tally, leaves, tally]
    rfl
  rw [written]
  exact ⟨congrArg Written.error answer, same.leaves, same.tally, related⟩

theorem writeCode_chunk {o p : Output} (same : Paired SameOffers o p) (code : Int32) :
    (p.writeCode code).1.error = (o.write (codeBytes code)).1.error ∧
      Paired SameOffers (o.write (codeBytes code)).2 (p.writeCode code).2 := by
  unfold writeCode
  split
  · have steady := steady_paired Console.steady_sameOffers
    obtain ⟨answer, related⟩ := steady.write same (codeBytes code)
    exact ⟨congrArg Written.error answer, related⟩
  · rename_i i found
    have leaves := leaves_of_characterDevice? found
    have tally := tally_of_characterDevice? found
    unfold codeBytes
    by_cases ascii : code < 0x80
    · rw [if_pos ascii, if_pos ascii]
      exact call_chunk same leaves tally (.byte i code.toUInt32.toUInt8) fun _ => rfl
    · rw [if_neg ascii, if_neg ascii]
      exact call_chunk same leaves tally (.character i code) fun _ => rfl

theorem writeCodesAfter_chunks {o p : Output} (same : Paired SameOffers o p) (n : Nat)
    (codes : List Int32) :
    (p.writeCodesAfter n codes).1.error = (o.writeChunks (codes.map codeBytes)).1 ∧
      Paired SameOffers (o.writeChunks (codes.map codeBytes)).2 (p.writeCodesAfter n codes).2 := by
  induction codes generalizing o p n with
  | nil => exact ⟨rfl, same⟩
  | cons code rest ih =>
    have first := writeCode_chunk same code
    rw [List.map_cons, writeChunks, writeCodesAfter]
    generalize o.write (codeBytes code) = here at first ⊢
    generalize p.writeCode code = there at first ⊢
    obtain ⟨⟨taken, _⟩, o'⟩ := here
    obtain ⟨⟨k, error⟩, p'⟩ := there
    obtain ⟨rfl, same⟩ := first
    cases error with
    | some e => exact ⟨rfl, same⟩
    | none => exact ih same (n + k)

def TakesAll (o : Output) : Prop :=
  ∀ i ∈ o.leaves, (o.console.device i).kind ≠ .discard → (o.console.device i).TakesAll

/-- Since it was `o` the output has copied the chunks to its devices, each chunk as often as a
device is listed. Of what a device discards there is no record. -/
structure Copied (o : Output) (chunks : List Text) (p : Output) : Prop where
  leaves : p.leaves = o.leaves
  later (i : Nat) : (o.console.device i).Later (p.console.device i)
  data {i : Nat} (keeps : (o.console.device i).kind ≠ .discard) :
    p.console.dataOf i = o.console.dataOf i ++
      chunks.flatMap fun chunk => (List.replicate (o.leaves.count i) chunk).flatten

namespace Copied

variable {o p q : Output} {chunks more : List Text}

theorem nothing (o : Output) : Copied o [] o where
  leaves := rfl
  later _ := .refl _
  data _ := (List.append_nil _).symm

theorem trans (first : Copied o chunks p) (second : Copied p more q) :
    Copied o (chunks ++ more) q where
  leaves := second.leaves.trans first.leaves
  later i := (first.later i).trans (second.later i)
  data {i} keeps := by
    rw [second.data (by rwa [(first.later i).kind]), first.data keeps, first.leaves,
      List.flatMap_append, List.append_assoc]

theorem takesAll (copied : Copied o chunks p) (all : o.TakesAll) : p.TakesAll := by
  intro i leaf
  rw [copied.leaves] at leaf
  rw [(copied.later i).kind]
  exact fun keeps => (all i leaf keeps).later (copied.later i)

theorem trace (copied : Copied o chunks p) (line : TraceLine) :
    Copied o chunks (p.note (.trace line)) where
  leaves := copied.leaves
  later := copied.later
  data keeps := (Console.dataOf_trace _ _ _).trans (copied.data keeps)

theorem sameOffers (copied : Copied o chunks p) (same : Paired SameOffers p q) :
    Copied o chunks q where
  leaves := same.leaves.trans copied.leaves
  later i := by
    rw [Console.device_eq same.console.devices]
    exact copied.later i
  data keeps := (same.console.dataOf _).trans (copied.data keeps)

theorem flush (copied : Copied o chunks p) : Copied o chunks p.flush.2 where
  leaves := copied.leaves
  later i := (copied.later i).trans (later_flushEach p.console p.leaves i)
  data keeps := (Console.dataOf_eq (flushEach_writes _ _) _).trans (copied.data keeps)

theorem once (copied : Copied o chunks p) {i : Nat} (listed : o.leaves.count i = 1)
    (keeps : (o.console.device i).kind ≠ .discard) :
    p.console.dataOf i = o.console.dataOf i ++ chunks.flatten := by
  rw [copied.data keeps, listed]
  simp

end Copied

theorem write_takesAll {c : Console} {i : Nat}
    (all : (c.device i).kind ≠ .discard → (c.device i).TakesAll) (data : Text) :
    (c.write i data).1 = ⟨data.length, none⟩ ∧ ∀ {j : Nat}, (c.device j).kind ≠ .discard →
      (c.write i data).2.dataOf j = c.dataOf j ++ if i = j then data else [] := by
  have answer : (c.device i).answer data.length = ⟨data.length, none⟩ := by
    by_cases discards : (c.device i).kind = .discard
    · rw [Device.answer, discards]
    · exact Device.answer_of_takesAll (all discards) data.length
  refine ⟨(Console.call_answer ..).trans answer, fun {j} keeps => ?_⟩
  by_cases same : i = j
  · subst same
    rw [if_pos rfl, Console.write, Console.dataOf_call_self _ (fun _ => rfl) keeps, answer]
    simp [Event.data]
  · rw [if_neg same, List.append_nil]
    exact Console.dataOf_call_other _ (fun _ => rfl) (Ne.symm same)

theorem writeEach_cons {c : Console} {i : Nat}
    (all : (c.device i).kind ≠ .discard → (c.device i).TakesAll) (data : Text) (rest : List Nat) :
    writeEach c data (i :: rest) = writeEach (c.write i data).2 data rest := by
  have answer := (write_takesAll all data).1
  rw [writeEach]
  generalize c.write i data = offered at answer
  obtain ⟨⟨taken, error⟩, d⟩ := offered
  cases answer
  simp only [if_true]

theorem copied_writeEach (data : Text) (rest : List Nat) {c : Console}
    (all : ∀ i ∈ rest, (c.device i).kind ≠ .discard → (c.device i).TakesAll) :
    (writeEach c data rest).1.error = none ∧
      (∀ j, (c.device j).Later ((writeEach c data rest).2.device j)) ∧
      ∀ {j : Nat}, (c.device j).kind ≠ .discard → (writeEach c data rest).2.dataOf j =
        c.dataOf j ++ (List.replicate (rest.count j) data).flatten := by
  induction rest generalizing c with
  | nil => exact ⟨rfl, fun j => .refl _, fun _ => (List.append_nil _).symm⟩
  | cons i rest ih =>
    obtain ⟨here, others⟩ := List.forall_mem_cons.1 all
    have first := @(write_takesAll here data).2
    have later (j : Nat) : (c.device j).Later ((c.write i data).2.device j) :=
      Console.later_call c i data.length (.write i data) j
    have still : ∀ k ∈ rest, ((c.write i data).2.device k).kind ≠ .discard →
        ((c.write i data).2.device k).TakesAll := by
      intro k leaf keeps
      rw [(later k).kind] at keeps
      exact (others k leaf keeps).later (later k)
    obtain ⟨fine, after, second⟩ := ih still
    rw [writeEach_cons here]
    refine ⟨fine, fun j => (later j).trans (after j), fun {j} keeps => ?_⟩
    rw [second (by rwa [(later j).kind]), first keeps, List.append_assoc, List.count_cons]
    by_cases same : i = j
    · simp [same, List.replicate_succ]
    · simp [same]

theorem copied_write {o : Output} (all : o.TakesAll) (data : Text) :
    (o.write data).1.error = none ∧ Copied o [data] (o.write data).2 := by
  obtain ⟨fine, later, taken⟩ := copied_writeEach data o.leaves all
  have console : (o.write data).1.error = (writeEach o.console data o.leaves).1.error ∧
      (o.write data).2.console = (writeEach o.console data o.leaves).2 := by
    unfold write
    split
    rename_i w c written
    split at written
    · rename_i i leaves
      have here := all i (leaves ▸ List.mem_cons_self)
      have answer := (write_takesAll here data).1
      rw [leaves, writeEach_cons here, writeEach]
      rw [written] at answer ⊢
      exact ⟨congrArg Written.error answer, rfl⟩
    · rw [written]
      exact ⟨rfl, rfl⟩
  refine ⟨console.1.trans fine, rfl, fun i => console.2 ▸ later i, fun keeps => ?_⟩
  rw [console.2, taken keeps]
  simp

theorem copied_writeChunks {o : Output} (all : o.TakesAll) (chunks : List Text) :
    (o.writeChunks chunks).1 = none ∧ Copied o chunks (o.writeChunks chunks).2 := by
  induction chunks generalizing o with
  | nil => exact ⟨rfl, .nothing o⟩
  | cons chunk rest ih =>
    obtain ⟨fine, first⟩ := copied_write all chunk
    obtain ⟨ended, second⟩ := ih (first.takesAll all)
    rw [writeChunks]
    generalize o.write chunk = written at fine first ended second ⊢
    obtain ⟨⟨taken, error⟩, p⟩ := written
    cases fine
    exact ⟨ended, first.trans second⟩

end Output
end StackLang
