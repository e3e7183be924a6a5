import Mathlib.Data.List.TakeWhile
import StackLang.Text

/-! Texts as lines. A text is cut into the lines that its newlines end and what follows the last of
them, in one way only. -/
namespace StackLang.Text

/-- The text is these lines, each of them ended, and the rest after them. -/
structure CutInto (t : Text) (ls : List Text) (rest : Text) : Prop where
  whole : t = ls.flatMap (· ++ [newline]) ++ rest
  single : ∀ l ∈ ls, newline ∉ l
  unended : newline ∉ rest

theorem CutInto.uncut {t : Text} (unended : newline ∉ t) : CutInto t [] t :=
  ⟨rfl, List.forall_mem_nil _, unended⟩

theorem CutInto.cons {l t rest : Text} {ls : List Text} (single : newline ∉ l)
    (cut : CutInto t ls rest) : CutInto (l ++ newline :: t) (l :: ls) rest where
  whole := by simp [cut.whole]
  single := List.forall_mem_cons.2 ⟨single, cut.single⟩
  unended := cut.unended

/-- More text goes on with the rest. -/
theorem CutInto.append {t more rest rest' : Text} {ls ls' : List Text} (cut : CutInto t ls rest)
    (later : CutInto (rest ++ more) ls' rest') : CutInto (t ++ more) (ls ++ ls') rest' where
  whole := by
    rw [cut.whole, List.append_assoc, later.whole, List.flatMap_append, List.append_assoc]
  single := List.forall_mem_append.2 ⟨cut.single, later.single⟩
  unended := later.unended

theorem CutInto.splitOn {t rest : Text} {ls : List Text} (cut : CutInto t ls rest) :
    t.splitOn newline = ls ++ [rest] := by
  obtain ⟨rfl, single, unended⟩ := cut
  induction ls with
  | nil => exact List.splitOn_eq_singleton unended
  | cons l ls ih =>
    obtain ⟨here, others⟩ := List.forall_mem_cons.1 single
    have first := List.splitOn_append_cons_self_of_not_mem here
      (ls.flatMap (· ++ [newline]) ++ rest)
    rw [ih others] at first
    simpa using first

theorem CutInto.unique {t rest rest' : Text} {ls ls' : List Text} (cut : CutInto t ls rest)
    (also : CutInto t ls' rest') : ls = ls' ∧ rest = rest' := by
  have same := cut.splitOn.symm.trans also.splitOn
  exact List.concat_inj.1 (by simpa using same)

end StackLang.Text
