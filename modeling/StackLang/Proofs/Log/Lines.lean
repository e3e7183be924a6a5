import Mathlib.Data.List.TakeWhile
import StackLang.Log
import StackLang.Proofs.Text.Lines

/-! Lines out of chunks. Where a stream is cut into chunks does not matter: the lines handed out are
what stands between its newlines, and the writer holds what follows the last of them. A flush puts a
newline behind a line that has been begun, and does nothing else. -/
namespace StackLang.LineWriter
open Text (CutInto)

theorem lines_unended (begun : Text) {data : Text} (unended : Text.newline ∉ data) :
    lines begun data = ([], begun ++ data) := by
  have nothing : data.dropWhile (· ≠ Text.newline) = [] := by
    rw [List.dropWhile_eq_nil_iff]
    intro b mem
    simpa using ne_of_mem_of_not_mem mem unended
  rw [lines]
  split
  · rfl
  · rename_i found
    cases nothing.symm.trans found

theorem lines_ended (begun : Text) {l : Text} (single : Text.newline ∉ l) (rest : Text) :
    lines begun (l ++ Text.newline :: rest) =
      ((begun ++ l) :: (lines [] rest).1, (lines [] rest).2) := by
  have passed : ∀ b ∈ l, decide (b ≠ Text.newline) = true := by
    intro b mem
    simpa using ne_of_mem_of_not_mem mem single
  have dropped : (l ++ Text.newline :: rest).dropWhile (· ≠ Text.newline) =
      Text.newline :: rest := by
    rw [List.dropWhile_append_of_pos passed, List.dropWhile_cons_of_neg (by simp)]
  have taken : (l ++ Text.newline :: rest).takeWhile (· ≠ Text.newline) = l := by
    rw [List.takeWhile_append_of_pos passed, List.takeWhile_cons_of_neg (by simp), List.append_nil]
  rw [lines]
  split
  · rename_i found
    cases dropped.symm.trans found
  · rename_i found
    cases dropped.symm.trans found
    rw [taken]

theorem lines_cut {begun : Text} (unended : Text.newline ∉ begun) (data : Text) :
    CutInto (begun ++ data) (lines begun data).1 (lines begun data).2 := by
  induction size : data.length using Nat.strongRecOn generalizing begun data with
  | ind size shorter =>
    by_cases ends : Text.newline ∈ data
    · obtain ⟨l, rest, rfl, single⟩ := List.eq_append_cons_of_mem ends
      simp only [List.length_append, List.length_cons] at size
      have later := shorter rest.length (by omega) List.not_mem_nil rest rfl
      rw [lines_ended begun single, ← List.append_assoc]
      apply CutInto.cons
      · simp [unended, single]
      · exact later
    · rw [lines_unended begun ends]
      apply CutInto.uncut
      simp [unended, ends]

inductive Call where
  | write (data : Text)
  | flush
  | close

def call (w : LineWriter) : Call → List Text × LineWriter
  | .write data => (w.write data).2
  | .flush => w.flush.2
  | .close => w.close.2

def callAll (w : LineWriter) : List Call → List Text × LineWriter
  | [] => ([], w)
  | c :: cs => ((w.call c).1 ++ ((w.call c).2.callAll cs).1, ((w.call c).2.callAll cs).2)

theorem callAll_append (w : LineWriter) (cs ds : List Call) :
    w.callAll (cs ++ ds) =
      ((w.callAll cs).1 ++ ((w.callAll cs).2.callAll ds).1, ((w.callAll cs).2.callAll ds).2) := by
  induction cs generalizing w with
  | nil => rfl
  | cons c cs ih => simp only [List.cons_append, callAll, ih, List.append_assoc]

theorem callAll_concat (w : LineWriter) (cs : List Call) (c : Call) :
    w.callAll (cs ++ [c]) =
      ((w.callAll cs).1 ++ ((w.callAll cs).2.call c).1, ((w.callAll cs).2.call c).2) := by
  rw [callAll_append, callAll, callAll, List.append_nil]

/-- A text with one more call: a flush ends the line that has been begun. -/
def Call.extend (t : Text) : Call → Text
  | write data => t ++ data
  | flush | close => Logger.ended t

/-- All that came in, with the newlines that flushes stand for. -/
def received (cs : List Call) : Text := cs.foldl Call.extend []

theorem received_writes (chunks : List Text) : received (chunks.map .write) = chunks.flatten := by
  have after (t : Text) : (chunks.map Call.write).foldl Call.extend t = t ++ chunks.flatten := by
    induction chunks generalizing t with
    | nil => exact (List.append_nil t).symm
    | cons chunk rest ih =>
      rw [List.map_cons, List.foldl_cons, ih, Call.extend, List.flatten_cons, List.append_assoc]
  exact after []

theorem ended_of_cut {t rest : Text} {ls : List Text} (cut : CutInto t ls rest) :
    Logger.ended t = if rest = [] then t else t ++ [Text.newline] := by
  obtain ⟨rfl, _, unended⟩ := cut
  by_cases begun : rest = []
  · rw [begun, if_pos rfl, List.append_nil, Logger.ended, if_pos]
    rcases List.eq_nil_or_concat ls with rfl | ⟨ls, l, rfl⟩
    · exact .inl rfl
    · exact .inr (by simp)
  · have last := List.getLast_mem begun
    have other : (ls.flatMap (· ++ [Text.newline]) ++ rest).getLast? ≠ some Text.newline := by
      rw [List.getLast?_append, List.getLast?_eq_some_getLast begun, Option.some_or]
      exact fun same => unended (Option.some.inj same ▸ last)
    rw [if_neg begun, Logger.ended, if_neg]
    rintro (nothing | newline)
    · exact begun (List.append_eq_nil_iff.1 nothing).2
    · exact other newline

theorem call_cut {w : LineWriter} {t : Text} {ls : List Text} (cut : CutInto t ls w.partialLine)
    (c : Call) : CutInto (c.extend t) (ls ++ (w.call c).1) (w.call c).2.partialLine := by
  have flushed : CutInto (Logger.ended t) (ls ++ w.flush.2.1) w.flush.2.2.partialLine := by
    rw [ended_of_cut cut, flush]
    by_cases nothing : w.partialLine = []
    · rw [if_pos nothing, if_pos nothing, List.append_nil]
      exact cut
    · rw [if_neg nothing, if_neg nothing]
      apply cut.append
      apply CutInto.cons cut.unended
      exact .uncut List.not_mem_nil
  cases c with
  | write data => exact cut.append (lines_cut cut.unended data)
  | flush => exact flushed
  | close => exact flushed

theorem callAll_cut (cs : List Call) {w : LineWriter} {t : Text} {ls : List Text}
    (cut : CutInto t ls w.partialLine) :
    CutInto (cs.foldl Call.extend t) (ls ++ (w.callAll cs).1) (w.callAll cs).2.partialLine := by
  induction cs generalizing w t ls with
  | nil =>
    rw [callAll, List.append_nil]
    exact cut
  | cons c cs ih =>
    have later := ih (call_cut cut c)
    rw [List.append_assoc] at later
    exact later

theorem received_cut (cs : List Call) :
    CutInto (received cs) (callAll {} cs).1 (callAll {} cs).2.partialLine :=
  callAll_cut cs (.uncut List.not_mem_nil)

theorem call_newline (w : LineWriter) :
    w.call (.write [Text.newline]) = ([w.partialLine], { partialLine := [] }) := by
  have ended := lines_ended w.partialLine (l := []) List.not_mem_nil []
  rw [lines_unended [] List.not_mem_nil, List.nil_append, List.append_nil] at ended
  simp only [call, write, ended, List.append_nil]

theorem call_flush (w : LineWriter) :
    w.call .flush = if w.partialLine = [] then ([], w) else w.call (.write [Text.newline]) := by
  rw [call_newline, call, flush]
  split <;> rfl

theorem call_flush_iff (w : LineWriter) :
    w.call .flush = w.call (.write [Text.newline]) ↔ w.partialLine ≠ [] := by
  rw [call_flush, call_newline]
  by_cases nothing : w.partialLine = []
  · simp [nothing]
  · simp [nothing]

theorem flush_again (w : LineWriter) : w.flush.2.2.flush = (none, [], w.flush.2.2) := by
  by_cases nothing : w.partialLine = []
  · simp [flush, nothing]
  · simp [flush, nothing]

/-- A flush at the end hands out the last piece, unless that is empty. -/
theorem lines_flushed {calls : List Call} {pieces : List Text}
    (cut : pieces = (callAll {} calls).1 ++ [(callAll {} calls).2.partialLine]) :
    (callAll {} (calls ++ [.flush])).1 =
      if pieces.getLast? = some [] then pieces.dropLast else pieces := by
  rw [callAll_concat, cut, List.getLast?_concat, List.dropLast_concat, call_flush, call_newline]
  by_cases nothing : (callAll {} calls).2.partialLine = []
  · simp [nothing]
  · simp [nothing]

theorem callAll_flush (w : LineWriter) (calls later : List Call) :
    w.callAll (calls ++ .flush :: later) =
      if (w.callAll calls).2.partialLine = [] then w.callAll (calls ++ later)
      else w.callAll (calls ++ .write [Text.newline] :: later) := by
  rw [callAll_append, callAll_append, callAll_append, callAll, callAll, call_flush]
  split <;> rfl

theorem callAll_flush_iff (w : LineWriter) (calls : List Call) :
    w.callAll (calls ++ [.flush]) = w.callAll (calls ++ [.write [Text.newline]]) ↔
      (w.callAll calls).2.partialLine ≠ [] := by
  rw [callAll_concat, callAll_concat, Prod.ext_iff, List.append_cancel_left_eq, ← Prod.ext_iff]
  exact call_flush_iff _

/-- However a text is cut into chunks, its lines come out as they stand in it, and what follows the
last newline is held back. A flush is a newline there, where it ends a line that has been begun. -/
theorem lines_ignore_chunks (chunks : List Text) (calls later : List Call) :
    let pieces := chunks.flatten.splitOn Text.newline
    let written := callAll {} (chunks.map .write)
    let flushed := callAll {} (chunks.map .write ++ [.flush])
    let called := callAll {} calls
    let writer := called.2
    pieces = written.1 ++ [written.2.partialLine] ∧
      flushed.1 = (if pieces.getLast? = some [] then pieces.dropLast else pieces) ∧
      (∀ data, (writer.write data).1 = ⟨data.length, none⟩) ∧
      (received calls).splitOn Text.newline = called.1 ++ [writer.partialLine] ∧
      callAll {} (calls ++ .flush :: later) =
        (if writer.partialLine = [] then callAll {} (calls ++ later)
          else callAll {} (calls ++ .write [Text.newline] :: later)) ∧
      (callAll {} (calls ++ [.flush]) = callAll {} (calls ++ [.write [Text.newline]]) ↔
        writer.partialLine ≠ []) ∧
      writer.close = writer.flush ∧
      writer.flush.2.2.flush = (none, [], writer.flush.2.2) := by
  intro pieces written flushed called writer
  have cut : pieces = written.1 ++ [written.2.partialLine] := by
    have split := (received_cut (chunks.map .write)).splitOn
    rwa [received_writes] at split
  exact ⟨cut, lines_flushed cut, fun _ => rfl, (received_cut calls).splitOn,
    callAll_flush {} calls later, callAll_flush_iff {} calls, rfl, flush_again writer⟩

end StackLang.LineWriter
