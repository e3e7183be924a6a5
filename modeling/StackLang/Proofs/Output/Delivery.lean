import Mathlib.Data.List.Pairwise
import StackLang.Proofs.Output.Flush

/-! What gets through. An output offers its data to one device after the other and stops at the
first error, so the devices hold parts of the data, a later one never more than an earlier one, and
without an error all of them hold the whole. -/
namespace StackLang

/-- A short count comes with an error. -/
def Reply.Honest (r : Reply) : Prop :=
  ∀ size, (r.written size).taken < size → (r.written size).error ≠ none

theorem Reply.written_le (r : Reply) (size : Nat) : (r.written size).taken ≤ size := by
  cases r with
  | all => exact Nat.le_refl size
  | refuse => exact Nat.zero_le size
  | upTo n | upToAndRefuse n _ => exact Nat.min_le_right n size

namespace Device

def Honest (d : Device) : Prop := ∀ r ∈ d.script, r.Honest

def TakesAll (d : Device) : Prop := ∀ r ∈ d.script, r = .all

structure Later (d e : Device) : Prop where
  kind : e.kind = d.kind
  script : e.script <:+ d.script

theorem Later.refl (d : Device) : Later d d := ⟨rfl, List.suffix_rfl⟩

theorem Later.trans {d e f : Device} (first : Later d e) (second : Later e f) : Later d f :=
  ⟨second.kind.trans first.kind, second.script.trans first.script⟩

theorem later_next (d : Device) : Later d d.next := ⟨rfl, List.tail_suffix d.script⟩

theorem later_flushed (d : Device) : Later d d.flushed := by
  unfold flushed
  split
  · exact ⟨rfl, List.suffix_rfl⟩
  · exact .refl d

theorem Honest.later {d e : Device} (honest : d.Honest) (later : Later d e) : e.Honest :=
  fun r mem => honest r (later.script.subset mem)

theorem TakesAll.later {d e : Device} (all : d.TakesAll) (later : Later d e) : e.TakesAll :=
  fun r mem => all r (later.script.subset mem)

theorem TakesAll.honest {d : Device} (all : d.TakesAll) : d.Honest := by
  intro r mem size short
  rw [all r mem] at short
  exact absurd short (Nat.lt_irrefl size)

theorem answer_of_takesAll {d : Device} (all : d.TakesAll) (size : Nat) :
    d.answer size = ⟨size, none⟩ := by
  have reply : d.script.headD .all = .all := by
    cases script : d.script with
    | nil => rfl
    | cons r rest => exact all r (script ▸ List.mem_cons_self)
  unfold answer
  split
  · rfl
  · rw [reply]
    rfl

theorem answer_of_honest {d : Device} (honest : d.Honest) {size : Nat}
    (fine : (d.answer size).error = none) : (d.answer size).taken = size := by
  have kept (r : Reply) (mem : r ∈ d.script) (fine : (r.written size).error = none) :
      (r.written size).taken = size := by
    have all : ¬ (r.written size).taken < size := fun short => honest r mem size short fine
    exact Nat.le_antisymm (r.written_le size) (Nat.le_of_not_lt all)
  unfold answer at fine ⊢
  split at fine
  · rfl
  · cases script : d.script with
    | nil => rfl
    | cons r rest =>
      rw [script] at fine
      exact kept r (script ▸ List.mem_cons_self) fine

end Device

namespace Console

theorem dataOf_note (c : Console) (e : Event) (i : Nat) :
    (c.note e).dataOf i = c.dataOf i ++ if e.device? = some i then e.data else [] := by
  simp only [dataOf, eventsOf, note, List.reverse_cons, List.filter_append, List.flatMap_append]
  by_cases here : e.device? = some i
  · rw [if_pos here, List.filter_cons_of_pos (by simp [here])]
    simp
  · rw [if_neg here, List.filter_cons_of_neg (by simp [here])]
    rfl

theorem dataOf_trace (c : Console) (line : TraceLine) (i : Nat) :
    (c.note (.trace line)).dataOf i = c.dataOf i := by
  rw [dataOf_note, if_neg (by simp [Event.device?]), List.append_nil]

theorem dataOf_call_self {c : Console} {i : Nat} (size : Nat) {event : Nat → Event}
    (device : ∀ n, (event n).device? = some i) (keeps : (c.device i).kind ≠ .discard) :
    (c.call i size event).2.dataOf i =
      c.dataOf i ++ (event ((c.device i).answer size).taken).data := by
  have noted := dataOf_note c (event ((c.device i).answer size).taken) i
  rw [if_pos (device _)] at noted
  unfold call
  rw [if_neg keeps]
  exact noted

theorem dataOf_call_other {c : Console} {i j : Nat} (size : Nat) {event : Nat → Event}
    (device : ∀ n, (event n).device? = some i) (other : j ≠ i) :
    (c.call i size event).2.dataOf j = c.dataOf j := by
  have noted := dataOf_note c (event ((c.device i).answer size).taken) j
  rw [device, if_neg (by simpa using other.symm), List.append_nil] at noted
  simp only [call]
  split
  · rfl
  · exact noted

theorem later_call (c : Console) (i size : Nat) (event : Nat → Event) (j : Nat) :
    (c.device j).Later ((c.call i size event).2.device j) := by
  rcases device_call c i size event j with same | next
  · rw [same]
    exact .refl _
  · rw [next]
    exact Device.later_next _

theorem later_flush (c : Console) (i j : Nat) : (c.device j).Later ((c.flush i).2.device j) := by
  by_cases same : i = j
  · subst same
    rw [device_flush_self]
    exact Device.later_flushed _
  · rw [device_flush_other c same]
    exact .refl _

/-- From `c` to `d` the data went to the leaves, to each of them a part, and without an error to all
of them whole. Of what a device discards there is no record. -/
structure Delivered (leaves : List Nat) (data : Text) (error : Option WriteError) (c d : Console)
    (part : Nat → Text) : Prop where
  later (i : Nat) : (c.device i).Later (d.device i)
  took {i : Nat} (leaf : i ∈ leaves) (keeps : (c.device i).kind ≠ .discard) :
    d.dataOf i = c.dataOf i ++ part i
  elsewhere {i : Nat} (other : i ∉ leaves) : d.dataOf i = c.dataOf i
  cut {i : Nat} (leaf : i ∈ leaves) : part i <+: data
  order : leaves.Pairwise fun i k => part k <+: part i
  whole (fine : error = none) {i : Nat} (leaf : i ∈ leaves) : part i = data
  willing (all : ∀ i ∈ leaves, (c.device i).TakesAll) : error = none

namespace Delivered

variable {leaves rest : List Nat} {data more : Text} {error : Option WriteError} {c d e : Console}
  {part part' : Nat → Text}

theorem nothing (leaves : List Nat) (c : Console) :
    Delivered leaves [] none c c fun _ => [] where
  later _ := .refl _
  took _ _ := (List.append_nil _).symm
  elsewhere _ := rfl
  cut _ := List.prefix_rfl
  order := List.pairwise_of_forall fun _ _ => List.prefix_rfl
  whole _ _ _ := rfl
  willing _ := rfl

theorem call {i : Nat} {event : Nat → Event} (honest : (c.device i).Honest)
    (device : ∀ n, (event n).device? = some i) (bytes : ∀ n, (event n).data = data.take n) :
    Delivered [i] data (c.call i data.length event).1.error c (c.call i data.length event).2
      fun _ => data.take ((c.device i).answer data.length).taken where
  later := later_call c i _ _
  took leaf keeps := by
    cases List.mem_singleton.1 leaf
    rw [dataOf_call_self _ device keeps, bytes]
  elsewhere other := dataOf_call_other _ device (mt List.mem_singleton.2 other)
  cut _ := List.take_prefix _ _
  order := List.pairwise_singleton _ _
  whole fine _ _ := by
    rw [call_answer] at fine
    rw [Device.answer_of_honest honest fine, List.take_length]
  willing all := by
    rw [call_answer, Device.answer_of_takesAll (all i List.mem_cons_self)]

/-- A leaf that took everything comes before the others. -/
theorem cons {i : Nat} (apart : i ∉ rest) (first : Delivered [i] data none c d part)
    (second : Delivered rest data error d e part') :
    Delivered (i :: rest) data error c e fun k => if k = i then data else part' k := by
  have here : part i = data := first.whole rfl List.mem_cons_self
  have there {k : Nat} (leaf : k ∈ rest) : k ≠ i := fun same => apart (same ▸ leaf)
  refine ⟨fun k => (first.later k).trans (second.later k), ?_, ?_, ?_, ?_, ?_, ?_⟩
  · intro k leaf keeps
    rcases List.mem_cons.1 leaf with rfl | leaf
    · rw [second.elsewhere apart, first.took List.mem_cons_self keeps, here, if_pos rfl]
    · rw [if_neg (there leaf), second.took leaf (by rwa [(first.later k).kind]),
        first.elsewhere (mt List.mem_singleton.1 (there leaf))]
  · intro k other
    rw [second.elsewhere (List.not_mem_of_not_mem_cons other),
      first.elsewhere (mt List.mem_singleton.1 (List.ne_of_not_mem_cons other))]
  · intro k leaf
    rcases List.mem_cons.1 leaf with rfl | leaf
    · simp only [if_pos, List.prefix_rfl]
    · rw [if_neg (there leaf)]
      exact second.cut leaf
  · refine List.pairwise_cons.2 ⟨fun k leaf => ?_, second.order.imp_of_mem ?_⟩
    · rw [if_pos rfl, if_neg (there leaf)]
      exact second.cut leaf
    · intro k l one other below
      rw [if_neg (there one), if_neg (there other)]
      exact below
  · intro fine k leaf
    rcases List.mem_cons.1 leaf with rfl | leaf
    · exact if_pos rfl
    · rw [if_neg (there leaf)]
      exact second.whole fine leaf
  · intro all
    exact second.willing fun k leaf => (all k (.tail _ leaf)).later (first.later k)

/-- After a leaf that failed the others get nothing. -/
theorem cons_failed {i : Nat} (apart : i ∉ rest) (failed : error ≠ none)
    (first : Delivered [i] data error c d part) :
    Delivered (i :: rest) data error c d fun k => if k = i then part i else [] := by
  have there {k : Nat} (leaf : k ∈ rest) : k ≠ i := fun same => apart (same ▸ leaf)
  refine ⟨first.later, ?_, ?_, ?_, ?_, fun fine => absurd fine failed, ?_⟩
  · intro k leaf keeps
    rcases List.mem_cons.1 leaf with rfl | leaf
    · rw [if_pos rfl]
      exact first.took List.mem_cons_self keeps
    · rw [if_neg (there leaf), List.append_nil,
        first.elsewhere (mt List.mem_singleton.1 (there leaf))]
  · intro k other
    exact first.elsewhere (mt List.mem_singleton.1 (List.ne_of_not_mem_cons other))
  · intro k leaf
    by_cases same : k = i
    · rw [if_pos same]
      exact first.cut List.mem_cons_self
    · rw [if_neg same]
      exact List.nil_prefix
  · have nothing (text : Text) {k : Nat} (leaf : k ∈ rest) :
        (if k = i then part i else []) <+: text := by
      rw [if_neg (there leaf)]
      exact List.nil_prefix
    refine List.pairwise_cons.2 ⟨fun k leaf => nothing _ leaf, ?_⟩
    exact List.pairwise_of_forall_mem_list fun k _ l leaf => nothing _ leaf
  · intro all
    exact first.willing fun k leaf => all k (List.mem_singleton.1 leaf ▸ List.mem_cons_self)

theorem trans (first : Delivered leaves data none c d part)
    (second : Delivered leaves more error d e part') :
    Delivered leaves (data ++ more) error c e fun i => data ++ part' i where
  later i := (first.later i).trans (second.later i)
  took {i} leaf keeps := by
    rw [second.took leaf (by rwa [(first.later i).kind]), first.took leaf keeps,
      first.whole rfl leaf, List.append_assoc]
  elsewhere other := (second.elsewhere other).trans (first.elsewhere other)
  cut leaf := (List.prefix_append_right_inj data).2 (second.cut leaf)
  order := second.order.imp (List.prefix_append_right_inj data).2
  whole fine _ leaf := congrArg (data ++ ·) (second.whole fine leaf)
  willing all := second.willing fun i leaf => (all i leaf).later (first.later i)

/-- What comes after an error is not delivered. -/
theorem cutShort (failed : error ≠ none) (first : Delivered leaves data error c d part)
    (more : Text) : Delivered leaves (data ++ more) error c d part where
  later := first.later
  took := first.took
  elsewhere := first.elsewhere
  cut leaf := (first.cut leaf).trans (List.prefix_append data more)
  order := first.order
  whole fine := absurd fine failed
  willing := first.willing

theorem trace (first : Delivered leaves data error c d part) (line : TraceLine) :
    Delivered leaves data error c (d.note (.trace line)) part where
  later := first.later
  took leaf keeps := (dataOf_trace d line _).trans (first.took leaf keeps)
  elsewhere other := (dataOf_trace d line _).trans (first.elsewhere other)
  cut := first.cut
  order := first.order
  whole := first.whole
  willing := first.willing

end Delivered

end Console

namespace Output

theorem later_flushEach (c : Console) (leaves : List Nat) (i : Nat) :
    (c.device i).Later ((flushEach c leaves).2.device i) := by
  induction leaves generalizing c with
  | nil => exact .refl _
  | cons j rest ih => exact (Console.later_flush c j i).trans (ih (c.flush j).2)

theorem delivered_writeEach (data : Text) (leaves : List Nat) {c : Console}
    (distinct : leaves.Nodup) (honest : ∀ i ∈ leaves, (c.device i).Honest) :
    ∃ part, Console.Delivered leaves data (writeEach c data leaves).1.error c
      (writeEach c data leaves).2 part := by
  induction leaves generalizing c with
  | nil =>
    refine ⟨fun _ => data, fun i => .refl _, ?_, fun _ => rfl, ?_, .nil, ?_, fun _ => rfl⟩
    · exact fun leaf => absurd leaf List.not_mem_nil
    · exact fun leaf => absurd leaf List.not_mem_nil
    · exact fun _ _ leaf => absurd leaf List.not_mem_nil
  | cons i rest ih =>
    obtain ⟨apart, distinct⟩ := List.nodup_cons.1 distinct
    obtain ⟨here, there⟩ := List.forall_mem_cons.1 honest
    have first : Console.Delivered [i] data (c.write i data).1.error c (c.write i data).2 _ :=
      .call here (fun _ => rfl) fun _ => rfl
    have counted : (c.write i data).1.error = none → (c.write i data).1.taken = data.length := by
      rw [Console.write, Console.call_answer]
      exact Device.answer_of_honest here
    unfold writeEach
    generalize c.write i data = offered at first counted ⊢
    obtain ⟨⟨taken, error⟩, d⟩ := offered
    cases error with
    | some e => exact ⟨_, first.cons_failed apart (by simp)⟩
    | none =>
      obtain ⟨part, second⟩ := ih distinct fun k leaf => (there k leaf).later (first.later k)
      simp only [if_pos (counted rfl)]
      exact ⟨_, first.cons apart second⟩

/-- Distinct devices that own up to what they did not take. -/
structure Sound (o : Output) : Prop where
  distinct : o.leaves.Nodup
  honest : ∀ i ∈ o.leaves, (o.console.device i).Honest

/-- Since it was `o` the output has passed the data on to its devices. -/
structure Passed (o : Output) (data : Text) (error : Option WriteError) (p : Output)
    (part : Nat → Text) : Prop where
  leaves : p.leaves = o.leaves
  delivered : Console.Delivered o.leaves data error o.console p.console part

namespace Passed

variable {o p q : Output} {data more : Text} {error : Option WriteError} {part part' : Nat → Text}

theorem nothing (o : Output) : Passed o [] none o fun _ => [] := ⟨rfl, .nothing o.leaves o.console⟩

theorem devices {P : Device → Prop} (lasting : ∀ {d e : Device}, P d → d.Later e → P e)
    (passed : Passed o data error p part) (each : ∀ i ∈ o.leaves, P (o.console.device i)) :
    ∀ i ∈ p.leaves, P (p.console.device i) := by
  intro i leaf
  rw [passed.leaves] at leaf
  exact lasting (each i leaf) (passed.delivered.later i)

theorem sound (passed : Passed o data error p part) (sound : o.Sound) : p.Sound :=
  ⟨passed.leaves ▸ sound.distinct, passed.devices .later sound.honest⟩

theorem trans (first : Passed o data none p part) (second : Passed p more error q part') :
    Passed o (data ++ more) error q fun i => data ++ part' i := by
  refine ⟨second.leaves.trans first.leaves, first.delivered.trans ?_⟩
  rw [← first.leaves]
  exact second.delivered

theorem cutShort (failed : error ≠ none) (first : Passed o data error p part) (more : Text) :
    Passed o (data ++ more) error p part :=
  ⟨first.leaves, first.delivered.cutShort failed more⟩

theorem trace (first : Passed o data error p part) (line : TraceLine) :
    Passed o data error (p.note (.trace line)) part :=
  ⟨first.leaves, first.delivered.trace line⟩

theorem dataOf_only {j : Nat} (passed : Passed o data none p part) (only : o.leaves = [j])
    (keeps : (o.console.device j).kind ≠ .discard) :
    p.console.dataOf j = o.console.dataOf j ++ data := by
  have leaf : j ∈ o.leaves := only ▸ List.mem_cons_self
  rw [passed.delivered.took leaf keeps, passed.delivered.whole rfl leaf]

end Passed

theorem passed_call {o : Output} (sound : o.Sound) {i : Nat} (leaves : o.leaves = [i]) {data : Text}
    {event : Nat → Event} (device : ∀ n, (event n).device? = some i)
    (bytes : ∀ n, (event n).data = data.take n) (tally : Option Tally) :
    let called := o.console.call i data.length event
    ∃ part, Passed o data called.1.error { o with tally, console := called.2 } part := by
  have delivered : Console.Delivered [i] data _ o.console _ _ :=
    .call (sound.honest i (leaves ▸ List.mem_cons_self)) device bytes
  rw [← leaves] at delivered
  exact ⟨_, rfl, delivered⟩

theorem passed_write {o : Output} (sound : o.Sound) (data : Text) :
    ∃ part, Passed o data (o.write data).1.error (o.write data).2 part := by
  obtain ⟨part, delivered⟩ := delivered_writeEach data o.leaves sound.distinct sound.honest
  unfold write
  split
  rename_i w c written
  split at written
  · rename_i i leaves
    let tally := o.tally.map (·.add data w.taken)
    have passed : ∃ part, Passed o data (o.console.write i data).1.error
        { o with tally, console := (o.console.write i data).2 } part :=
      passed_call sound leaves (fun _ => rfl) (fun _ => rfl) tally
    rw [written] at passed
    exact passed
  · rw [written] at delivered
    exact ⟨part, rfl, delivered⟩

def codeBytes (code : Int32) : Text :=
  if code < 0x80 then [code.toUInt32.toUInt8] else encodeCode code

theorem passed_writeCode {o : Output} (sound : o.Sound) (code : Int32) :
    ∃ part, Passed o (codeBytes code) (o.writeCode code).1.error (o.writeCode code).2 part := by
  unfold writeCode
  split
  · exact passed_write sound _
  · rename_i i found
    have leaves := leaves_of_characterDevice? found
    unfold codeBytes
    by_cases ascii : code < 0x80
    · rw [if_pos ascii, if_pos ascii]
      exact passed_call sound leaves (fun _ => rfl) (fun _ => rfl) o.tally
    · rw [if_neg ascii, if_neg ascii]
      exact passed_call sound leaves (fun _ => rfl) (fun _ => rfl) o.tally

theorem passed_writeCodesAfter {o : Output} (sound : o.Sound) (n : Nat) (codes : List Int32) :
    ∃ part, Passed o (codes.flatMap codeBytes) (o.writeCodesAfter n codes).1.error
      (o.writeCodesAfter n codes).2 part := by
  induction codes generalizing o n with
  | nil => exact ⟨_, .nothing o⟩
  | cons code rest ih =>
    obtain ⟨part, first⟩ := passed_writeCode sound code
    rw [List.flatMap_cons]
    unfold writeCodesAfter
    generalize o.writeCode code = here at first ⊢
    obtain ⟨⟨k, error⟩, p⟩ := here
    cases error with
    | some e => exact ⟨part, first.cutShort (by simp) _⟩
    | none =>
      obtain ⟨part', second⟩ := ih (first.sound sound) (n + k)
      exact ⟨_, first.trans second⟩

end Output

inductive Request where
  | text (data : Text)
  | codes (cs : List Int32)

def Request.bytes : Request → Text
  | text data => data
  | codes cs => cs.flatMap Output.codeBytes

namespace Output

def serve (o : Output) : Request → Written × Output
  | .text data => o.write data
  | .codes cs => o.writeCodes cs

theorem passed_serve {o : Output} (sound : o.Sound) (r : Request) :
    ∃ part, Passed o r.bytes (o.serve r).1.error (o.serve r).2 part := by
  cases r with
  | text data => exact passed_write sound data
  | codes cs => exact passed_writeCodesAfter sound 0 cs

structure Willing (o : Output) : Prop where
  distinct : o.leaves.Nodup
  takesAll : ∀ i ∈ o.leaves, (o.console.device i).TakesAll

theorem willing_of_only {o : Output} {j : Nat} (only : o.leaves = [j])
    (takesAll : (o.console.device j).TakesAll) : o.Willing := by
  refine ⟨by simp [only], fun i leaf => ?_⟩
  rw [only] at leaf
  cases List.mem_singleton.1 leaf
  exact takesAll

theorem Willing.sound {o : Output} (willing : o.Willing) : o.Sound :=
  ⟨willing.distinct, fun i leaf => (willing.takesAll i leaf).honest⟩

theorem Passed.willing {o p : Output} {data : Text} {error : Option WriteError} {part : Nat → Text}
    (passed : Passed o data error p part) (willing : o.Willing) : p.Willing :=
  ⟨passed.leaves ▸ willing.distinct, passed.devices .later willing.takesAll⟩

/-- Since it was `o` the output has passed on all that it was asked to. -/
def Served (o p : Output) : Prop := ∃ data part, Passed o data none p part

theorem Served.refl (o : Output) : Served o o := ⟨_, _, .nothing o⟩

theorem Served.trace {o p : Output} (served : Served o p) (line : TraceLine) :
    Served o (p.note (.trace line)) := by
  obtain ⟨data, part, passed⟩ := served
  exact ⟨data, part, passed.trace line⟩

theorem Passed.serve {o p : Output} (willing : o.Willing) {data : Text} {part : Nat → Text}
    (passed : Passed o data none p part) (r : Request) :
    ∃ part' : Nat → Text, (p.serve r).1.error = none ∧
      Passed o (data ++ r.bytes) none (p.serve r).2 fun i => data ++ part' i := by
  obtain ⟨part', next⟩ := passed_serve (passed.sound willing.sound) r
  have fine : (p.serve r).1.error = none := next.delivered.willing (passed.willing willing).takesAll
  rw [fine] at next
  exact ⟨part', fine, passed.trans next⟩

theorem Served.serve {o p : Output} (willing : o.Willing) (served : Served o p) (r : Request) :
    (p.serve r).1.error = none ∧ Served o (p.serve r).2 := by
  obtain ⟨data, part, passed⟩ := served
  obtain ⟨part', fine, passed⟩ := passed.serve willing r
  exact ⟨fine, _, _, passed⟩

/-- Since they were `o` and `p` the outputs have been given the same data, and the second one has
passed all of it on; the first one has done so as far as an error allows. -/
def Echoes (o p : Output) (error : Option WriteError) (o' p' : Output) : Prop :=
  ∃ data part part', Passed o data error o' part ∧ Passed p data none p' part'

namespace Echoes

variable {o p o' p' q : Output} {error : Option WriteError}

theorem refl (o p : Output) : Echoes o p none o p := ⟨_, _, _, .nothing o, .nothing p⟩

theorem trace (echoes : Echoes o p error o' p') (line : TraceLine) :
    Echoes o p error (o'.note (.trace line)) p' ∧ Echoes o p error o' (p'.note (.trace line)) := by
  obtain ⟨data, part, part', first, second⟩ := echoes
  exact ⟨⟨_, _, _, first.trace line, second⟩, ⟨_, _, _, first, second.trace line⟩⟩

theorem serve (sound : o.Sound) (willing : p.Willing) (echoes : Echoes o p none o' p')
    (r : Request) : (p'.serve r).1.error = none ∧
      Echoes o p (o'.serve r).1.error (o'.serve r).2 (p'.serve r).2 := by
  obtain ⟨data, part, part', first, second⟩ := echoes
  obtain ⟨_, here⟩ := passed_serve (first.sound sound) r
  obtain ⟨_, fine, there⟩ := second.serve willing r
  exact ⟨fine, _, _, _, first.trans here, there⟩

theorem willing (echoes : Echoes o p error o' p') (willing : p.Willing) : p'.Willing := by
  obtain ⟨_, _, _, _, second⟩ := echoes
  exact second.willing willing

/-- After an error only the second output goes on. -/
theorem behind (failed : error ≠ none) (echoes : Echoes o p error o' p') (more : Served p' q) :
    Echoes o p error o' q := by
  obtain ⟨data, part, part', first, second⟩ := echoes
  obtain ⟨rest, _, later⟩ := more
  exact ⟨_, _, _, first.cutShort failed rest, second.trans later⟩

end Echoes
end Output
end StackLang
