import Mathlib.Logic.Function.Iterate
import StackLang.Proofs.Token.Culprit
import StackLang.Proofs.Token.Seam

/-! Calling a cursor again and again, also after faults. Each call that does not find the end takes
some of the text and points further on, so the end is found, and from then on nothing else. -/
namespace StackLang
namespace Pos

/-- In the order of lines and columns, the first place does not come after the second. -/
def UpTo (p q : Pos) : Prop := p.line < q.line ∨ p.line = q.line ∧ p.col ≤ q.col

theorem UpTo.refl (p : Pos) : p.UpTo p := .inr ⟨rfl, Int.le_refl _⟩

theorem UpTo.trans {p q r : Pos} (first : p.UpTo q) (second : q.UpTo r) : p.UpTo r := by
  unfold UpTo at *
  omega

theorem upTo_after (p : Pos) (g : Glyph) : p.UpTo (p.after g) := by
  unfold Pos.after UpTo
  split
  · exact .inl (Int.lt_add_one_of_le (Int.le_refl _))
  · exact .inr ⟨rfl, by simp only; omega⟩

theorem upTo_afterAll (p : Pos) (gs : List Glyph) : p.UpTo (p.afterAll gs) := by
  induction gs generalizing p with
  | nil => exact .refl p
  | cons g gs ih => exact (upTo_after p g).trans (ih _)

end Pos

namespace Cursor

def later (c : Cursor) (n : Nat) : Cursor := (fun c => c.next.2)^[n] c

def found (c : Cursor) (n : Nat) : Except LexFault Token := (c.later n).next.1

def IsEnd (found : Except LexFault Token) : Prop := ∃ t, found = .ok t ∧ t.kind = .eof

/-- Where the token or the fault stands. -/
def placeOf : Except LexFault Token → Pos
  | .ok t => t.pos
  | .error e => e.pos

/-- The cursor stands in a text, between two glyphs, with `before` behind it and `rest` ahead. -/
structure Stands (c : Cursor) (before rest : Text) : Prop where
  cut : Text.Cut before rest
  ahead : c.rest = rest.glyphs
  place : c.pos = .behind before

theorem later_succ (c : Cursor) (n : Nat) : c.later (n + 1) = (c.later n).next.2 :=
  Function.iterate_succ_apply' ..

theorem found_add (c : Cursor) (k n : Nat) : c.found (k + n) = (c.later k).found n := by
  rw [Nat.add_comm, found, later, Function.iterate_add_apply]
  rfl

theorem nextMany_succ (c : Cursor) (n : Nat) :
    c.nextMany (n + 1) = c.next.1 :: c.next.2.nextMany n := rfl

theorem nextMany_eq (c : Cursor) (n : Nat) : c.nextMany n = (List.range n).map c.found := by
  induction n generalizing c with
  | zero => rfl
  | succ n ih =>
    rw [nextMany_succ, ih, List.range_succ_eq_map, List.map_cons, List.map_map]
    rfl

theorem stands_ofText (src : Text) : (ofText src).Stands [] src :=
  ⟨Text.cut_nil src, rfl, Pos.behind_nil.symm⟩

theorem Stands.advance {c : Cursor} {before rest : Text} (stands : c.Stands before rest)
    {gs hs : List Glyph} (glyphs : c.rest = gs ++ hs) :
    ∃ taken left, rest = taken ++ left ∧ taken.glyphs = gs ∧
      Stands ⟨hs, c.pos.afterAll gs⟩ (before ++ taken) left := by
  obtain ⟨taken, left, rfl, rfl, rfl⟩ := Text.glyphs_cut (stands.ahead.symm.trans glyphs)
  have cut : Text.Cut taken left := stands.ahead.symm.trans glyphs
  obtain ⟨first, second⟩ := stands.cut.assoc cut
  exact ⟨taken, left, rfl, rfl, second, rfl, by rw [stands.place, Pos.behind_append first]⟩

/-- A call goes on in the text, and unless it is at the end it takes some of it. -/
theorem Stands.next {c : Cursor} {before rest : Text} (stands : c.Stands before rest) :
    ∃ taken left, rest = taken ++ left ∧ c.next.2.Stands (before ++ taken) left ∧
      (c.AtEnd ∨ ¬ IsEnd c.next.1 ∧ taken ≠ []) := by
  rcases next_cases c with ended | ⟨blank, g, gs, hs, takes⟩
  · obtain ⟨taken, left, joined, _, there⟩ := stands.advance (List.append_nil _).symm
    exact ⟨taken, left, joined, by rwa [ended.found], .inl ended⟩
  · have glyphs : c.rest = (blank ++ g :: gs) ++ hs := by simp [takes.rest]
    obtain ⟨taken, left, joined, same, there⟩ := stands.advance glyphs
    refine ⟨taken, left, joined, by rwa [takes.found, ← Pos.afterAll_append], .inr ⟨?_, ?_⟩⟩
    · rintro ⟨t, token, eof⟩
      have sound := Text.sound_glyphs rest
      rw [← stands.ahead, takes.rest] at sound
      have behind := (List.forall_mem_cons.1 (List.forall_mem_append.1 sound).2).2
      rw [takes.found] at token
      exact (Token.scan_genuine behind (Prod.ext token rfl)).2 eof
    · rintro rfl
      simp at same

theorem next_shorter {c : Cursor} (more : ¬ IsEnd c.next.1) :
    c.next.2.rest.length < c.rest.length := by
  rcases next_cases c with ended | ⟨blank, g, gs, hs, takes⟩
  · exact absurd ⟨_, congrArg Prod.fst ended.found, rfl⟩ more
  · rw [takes.found, takes.rest]
    simp only [List.length_append, List.length_cons]
    omega

theorem placeOf_next (c : Cursor) :
    c.pos.UpTo (placeOf c.next.1) ∧ (placeOf c.next.1).UpTo c.next.2.pos := by
  cases called : c.next with
  | mk result after =>
    cases result with
    | error e =>
      obtain ⟨gs, _, there, before, more, _, taken, _, place, _⟩ := next_fault called
      rw [placeOf, there, taken, Pos.afterAll_append, place]
      exact ⟨Pos.upTo_afterAll .., Pos.upTo_afterAll ..⟩
    | ok t =>
      rcases next_cases c with ended | ⟨blank, g, gs, hs, takes⟩
      · cases called.symm.trans ended.found
        exact ⟨Pos.upTo_afterAll .., .refl _⟩
      · obtain ⟨scanned, rfl⟩ := Prod.mk.inj (called.symm.trans takes.found)
        rw [placeOf, Token.scan_pos scanned.symm]
        exact ⟨Pos.upTo_afterAll .., Pos.upTo_afterAll ..⟩

theorem stands_later (src : Text) (n : Nat) :
    ∃ before rest, src = before ++ rest ∧ ((ofText src).later n).Stands before rest := by
  induction n with
  | zero => exact ⟨[], src, rfl, stands_ofText src⟩
  | succ n ih =>
    obtain ⟨before, rest, rfl, stands⟩ := ih
    obtain ⟨taken, left, rfl, there, _⟩ := stands.next
    rw [later_succ]
    exact ⟨before ++ taken, left, (List.append_assoc ..).symm, there⟩

theorem upTo_found (c : Cursor) {m n : Nat} (order : m ≤ n) :
    (placeOf (c.found m)).UpTo (placeOf (c.found n)) := by
  induction n, order using Nat.le_induction with
  | base => exact .refl _
  | succ n _ ih =>
    have here := (placeOf_next (c.later n)).2
    rw [← later_succ] at here
    exact (ih.trans here).trans (placeOf_next (c.later (n + 1))).1

theorem AtEnd.found_again {c : Cursor} (ended : c.AtEnd) (n : Nat) :
    c.found n = .ok { kind := .eof, pos := c.pos.afterAll c.rest } := by
  have stays : ∀ n, c.later (n + 1) = ⟨[], c.pos.afterAll c.rest⟩ := by
    intro n
    induction n with
    | zero => exact congrArg Prod.snd ended.found
    | succ n ih =>
      rw [later_succ, ih]
      rfl
  cases n with
  | zero => exact congrArg Prod.fst ended.found
  | succ n =>
    rw [Cursor.found, stays]
    rfl

/-- Every call before the end takes a glyph at least, so there are no more such calls than glyphs. -/
theorem Stands.reaches_end {c : Cursor} {before rest : Text} (stands : c.Stands before rest) :
    ∃ k ≤ c.rest.length, (c.later k).AtEnd ∧ ∀ n < k, ¬ IsEnd (c.found n) := by
  induction size : c.rest.length using Nat.strongRecOn generalizing c before rest with
  | ind _ shorter =>
    obtain ⟨taken, left, rfl, there, ended | ⟨more, _⟩⟩ := stands.next
    · exact ⟨0, Nat.zero_le _, ended, fun n none => absurd none (Nat.not_lt_zero n)⟩
    · have less := next_shorter more
      obtain ⟨k, most, ended, early⟩ := shorter _ (size ▸ less) there rfl
      refine ⟨k + 1, by omega, ended, fun n before => ?_⟩
      cases n with
      | zero => exact more
      | succ n => exact early n (Nat.lt_of_succ_lt_succ before)

theorem tokensAfter_eq {c : Cursor} {k : Nat} (ended : (c.later k).AtEnd)
    (early : ∀ n < k, ¬ IsEnd (c.found n)) (read : List Token) :
    tokensAfter read c = ((c.nextMany (k + 1)).mapM id).map (read.reverse ++ ·) := by
  induction k generalizing c read with
  | zero =>
    have called : c.next = _ := AtEnd.found ended
    rw [tokensAfter_eof called rfl, nextMany_succ, called]
    exact congrArg Except.ok List.reverse_cons
  | succ k ih =>
    have behind := ih (c := c.next.2) ended fun n before => early (n + 1) (Nat.succ_lt_succ before)
    rw [nextMany_succ]
    cases result : c.next.1 with
    | error e =>
      rw [tokensAfter_error (Prod.ext result rfl)]
      rfl
    | ok t =>
      have token : t.kind ≠ .eof := fun eof => early 0 (Nat.succ_pos k) ⟨t, result, eof⟩
      rw [tokensAfter_more (Prod.ext result rfl) token, behind, List.mapM_cons]
      cases (c.next.2.nextMany (k + 1)).mapM id with
      | error e => rfl
      | ok ts => simp [Except.map, bind, Except.bind, pure, Except.pure]

end Cursor

/-- A cursor over a source makes progress, also after faults. A call that does not find the end goes on
by whole glyphs of the source. The end is found after as many other calls as there are glyphs at most,
and from then on always; the tokens of the source are what is found up to it, unless there is a fault.
Nothing that is found stands before what was found earlier. -/
theorem reading_makes_progress (src : Text) :
    let c := Cursor.ofText src
    (∀ n, ¬ Cursor.IsEnd (c.found n) → ∃ before taken left, src = before ++ (taken ++ left) ∧
      taken ≠ [] ∧ (c.later n).Stands before (taken ++ left) ∧
      (c.later (n + 1)).Stands (before ++ taken) left) ∧
    (∃ k ≤ src.glyphs.length, ∃ t : Token, t.kind = .eof ∧ (∀ n < k, ¬ Cursor.IsEnd (c.found n)) ∧
      (∀ n, c.found (k + n) = .ok t) ∧ lex src = (c.nextMany (k + 1)).mapM id) ∧
    (∀ m n, m ≤ n → (Cursor.placeOf (c.found m)).UpTo (Cursor.placeOf (c.found n))) ∧
    ∀ n, c.nextMany n = (List.range n).map c.found := by
  intro c
  refine ⟨fun n more => ?_, ?_, fun m n order => c.upTo_found order, c.nextMany_eq⟩
  · obtain ⟨before, rest, whole, stands⟩ := Cursor.stands_later src n
    obtain ⟨taken, left, rfl, there, ended | ⟨_, some⟩⟩ := stands.next
    · exact absurd ⟨_, ended.found_again 0, rfl⟩ more
    · exact ⟨before, taken, left, whole, some, stands, by rwa [Cursor.later_succ]⟩
  · obtain ⟨k, most, ended, early⟩ := (Cursor.stands_ofText src).reaches_end
    refine ⟨k, most, _, ?_, early, fun n => (c.found_add k n).trans (ended.found_again n), ?_⟩
    · rfl
    · rw [lex, Cursor.tokensAfter_eq ended early]
      cases (c.nextMany (k + 1)).mapM id with
      | error e => rfl
      | ok ts => rfl

/-- A word is glued to a sign, and the sign is read next; then there is a stray mark. -/
theorem reading_makes_progress_glued :
    let src := utf8 "1x+ ?"
    let c := Cursor.ofText src
    ¬ Cursor.IsEnd (c.found 1) ∧ (∃ before taken left, src = before ++ (taken ++ left) ∧ taken ≠ [] ∧
      (c.later 1).Stands before (taken ++ left) ∧ (c.later 2).Stands (before ++ taken) left) ∧
    1 ≤ 3 ∧ (Cursor.placeOf (c.found 1)).UpTo (Cursor.placeOf (c.found 3)) := by
  intro src c
  have fault : c.found 1 = .error ⟨⟨1, 3⟩, .unexpectedAfter (.char '+') (utf8 "x")⟩ := by
    decide +kernel
  have more : ¬ Cursor.IsEnd (c.found 1) := by
    rintro ⟨t, token, _⟩
    cases fault.symm.trans token
  obtain ⟨moves, -, order, -⟩ := reading_makes_progress src
  exact ⟨more, moves 1 more, by decide, order 1 3 (by decide)⟩

end StackLang
