import StackLang.Proofs.Token.Acceptance
import StackLang.Proofs.Token.Culprit
import StackLang.Tree.Parser

/-! Where faults point. What is wrong with a text is found at a place in it, and lines and columns
are counted from 1. -/
namespace StackLang

/-- A place in a text, and not the position that stands for none. -/
structure Pos.Counted (p : Pos) : Prop where
  line : 1 ≤ p.line
  col : 1 ≤ p.col

namespace Pos

theorem counted_behind (before : Text) : (behind before).Counted := by
  unfold behind
  constructor <;> simp only <;> omega

theorem Counted.after {p : Pos} (counted : p.Counted) (g : Glyph) : (p.after g).Counted := by
  obtain ⟨line, col⟩ := counted
  unfold Pos.after
  split
  · constructor <;> simp only <;> omega
  · constructor <;> simp only <;> omega

theorem Counted.afterAll {p : Pos} (counted : p.Counted) (gs : List Glyph) :
    (p.afterAll gs).Counted := by
  induction gs generalizing p with
  | nil => exact counted
  | cons g gs ih => exact ih (counted.after g)

end Pos

theorem SplitsInto.counted {before src : Text} {ts : List Token}
    (splits : SplitsInto before src ts) : ∀ t ∈ ts, t.pos.Counted := by
  induction splits with
  | ended blank =>
    intro t mem
    cases List.mem_singleton.1 mem
    exact Pos.counted_behind _
  | more blank stands later ih => exact List.forall_mem_cons.2 ⟨Pos.counted_behind _, ih⟩

namespace Cursor

theorem next_counted {c : Cursor} (counted : c.pos.Counted) : c.next.2.pos.Counted := by
  rcases next_cases c with ended | ⟨blank, g, gs, hs, takes⟩
  · rw [ended.found]
    exact counted.afterAll _
  · rw [takes.found]
    exact (counted.afterAll _).afterAll _

theorem tokensAfter_fault {read : List Token} {c : Cursor} {e : LexFault}
    (failed : tokensAfter read c = .error e) (counted : c.pos.Counted) : e.pos.Counted := by
  fun_induction tokensAfter read c with
  | case1 read c fault after found =>
    cases failed
    obtain ⟨_, _, _, before, _, _, _, _, place, _⟩ := next_fault found
    rw [place]
    exact counted.afterAll before
  | case2 => cases failed
  | case3 read c t after found token shorter ih =>
    refine ih failed ?_
    have next := next_counted counted
    rw [found] at next
    exact next

end Cursor

theorem lex_fault {src : Text} {e : LexFault} (failed : lex src = .error e) : e.pos.Counted := by
  have start : Pos.start.Counted := by constructor <;> decide
  exact Cursor.tokensAfter_fault failed start

namespace Partial

theorem name_fault {p : Partial} {mark : Naming} {t : Token} {e : ParseFault}
    (failed : p.name mark t = .error e) : e.pos = t.pos := by
  unfold name at failed
  split at failed
  · cases failed
  · split at failed <;> cases failed <;> rfl

theorem close_fault {p : Partial} {t : Token} {e : ParseFault} (failed : p.close t = .error e) :
    e.pos = t.pos := by
  unfold close at failed
  split at failed <;> cases failed
  rfl

theorem take_fault {p : Partial} {t : Token} {e : ParseFault} (failed : p.take t = .error e) :
    e.pos = t.pos := by
  unfold take at failed
  split at failed
  · exact name_fault failed
  · split at failed
    case h_11 => exact close_fault failed
    all_goals cases failed

theorem finish_fault {p : Partial} {pos : Pos} {e : ParseFault} (failed : p.finish pos = .error e) :
    e.pos = pos := by
  unfold finish at failed
  split at failed <;> cases failed <;> rfl

/-- A fault stands where one of the tokens does. -/
theorem takeAll_fault {p : Partial} {last : Pos} {ts : List Token} {e : ParseFault}
    (failed : p.takeAll last ts = .error e) : e.pos = last ∧ ts = [] ∨ ∃ t ∈ ts, e.pos = t.pos := by
  induction ts generalizing p last with
  | nil => exact .inl ⟨finish_fault failed, rfl⟩
  | cons t ts ih =>
    refine .inr ?_
    unfold takeAll at failed
    split at failed
    · exact ⟨t, List.mem_cons_self, finish_fault failed⟩
    split at failed
    · rename_i fault taken
      cases failed
      exact ⟨t, List.mem_cons_self, take_fault taken⟩
    · rcases ih failed with ⟨place, -⟩ | ⟨u, mem, place⟩
      · exact ⟨t, List.mem_cons_self, place⟩
      · exact ⟨u, .tail _ mem, place⟩

end Partial

theorem parse_fault {src : Text} {ts : List Token} {e : ParseFault} (lexed : lex src = .ok ts)
    (failed : parse ts = .error e) : e.pos.Counted := by
  have splits := splits_of_lex lexed
  rcases Partial.takeAll_fault failed with ⟨-, rfl⟩ | ⟨t, mem, place⟩
  · cases splits
  · rw [place]
    exact splits.counted t mem

end StackLang
