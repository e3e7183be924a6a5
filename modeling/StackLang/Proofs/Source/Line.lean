import StackLang.Proofs.Token.Grammar
import StackLang.Source

/-! The lines of a source. The reader counts lines and columns while it goes through the text, and a
source finds a line by its number afterwards; both mean the same line, and the same glyph in it. -/
namespace StackLang

/-- With `before` and `after` around it, `raw` is a whole line: newlines stand around it, or an end
of the text, and there is none inside. -/
structure WholeLine (before raw after : Text) : Prop where
  starts : ∀ b ∈ before.getLast?, b = Text.newline
  inside : Text.newline ∉ raw
  ends : ∀ b ∈ after.head?, b = Text.newline

/-- `raw` is line `n` of the text, counted from 1. -/
def IsLine (text : Text) (n : Int) (raw : Text) : Prop :=
  ∃ before after, text = before ++ (raw ++ after) ∧ n = 1 + before.count Text.newline ∧
    WholeLine before raw after

def Trims (raw line : Text) : Prop :=
  raw = line ++ [0x0D] ∨ raw = line ∧ raw.getLast? ≠ some 0x0D

namespace Source

theorem afterLines_count {before : Text} (starts : ∀ b ∈ before.getLast?, b = Text.newline)
    (rest : Text) : afterLines (before.count Text.newline) (before ++ rest) = some rest := by
  induction before with
  | nil => rfl
  | cons b before ih =>
    have found := ih fun c last => starts c (by simp [List.getLast?_cons, Option.mem_def.1 last])
    by_cases newline : b = Text.newline
    · subst newline
      rw [List.count_cons_self, List.cons_append, afterLines,
        List.dropWhile_cons_of_neg (by simp)]
      exact found
    · -- this line has more of it, since the last byte is a newline
      have more : Text.newline ∈ before := by
        cases last : before.getLast? with
        | none =>
          cases List.getLast?_eq_none_iff.1 last
          exact absurd (starts b rfl) newline
        | some c =>
          cases starts c (by simp [List.getLast?_cons, last])
          exact List.mem_of_getLast? last
      obtain ⟨n, count⟩ := Nat.exists_eq_succ_of_ne_zero (List.count_pos_iff.2 more).ne'
      rw [List.count_cons_of_ne newline, count, Nat.succ_eq_add_one, List.cons_append, afterLines,
        List.dropWhile_cons_of_pos (by simpa using newline)]
      rwa [count, Nat.succ_eq_add_one, afterLines] at found

theorem trims_line {src : Source} {before raw after : Text} (whole : WholeLine before raw after)
    (text : src.text = before ++ (raw ++ after)) :
    Trims raw (src.line (1 + before.count Text.newline)) := by
  have first : ¬ (1 + (before.count Text.newline : Int)) < 1 := by omega
  have number : (1 + (before.count Text.newline : Int)).toNat - 1 = before.count Text.newline := by
    omega
  have upTo : (raw ++ after).takeWhile (· ≠ Text.newline) = raw := by
    refine takeWhile_append_eq.2 ⟨fun b mem => decide_eq_true ?_, fun b first => ?_⟩
    · rintro rfl
      exact whole.inside mem
    · simp [whole.ends b first]
  rw [line, if_neg first, number, text, afterLines_count whole.starts, Option.getD_some, upTo]
  by_cases cr : raw.getLast? = some 0x0D
  · obtain ⟨line, rfl⟩ := List.getLast?_eq_some_iff.1 cr
    exact .inl (by simp)
  · exact .inr ⟨by rw [if_neg cr], cr⟩

end Source

theorem exists_lineStart (u : Text) : ∃ before part, u = before ++ part ∧
    (∀ b ∈ before.getLast?, b = Text.newline) ∧ Text.newline ∉ part := by
  induction u using List.reverseRecOn with
  | nil => exact ⟨[], [], rfl, by simp, by simp⟩
  | append_singleton u b ih =>
    by_cases newline : b = Text.newline
    · exact ⟨u ++ [b], [], by simp, by simp [newline], by simp⟩
    · obtain ⟨before, part, rfl, starts, free⟩ := ih
      exact ⟨before, part ++ [b], by simp, starts, by simp [free, Ne.symm newline]⟩

theorem exists_lineEnd (v : Text) : ∃ more after, v = more ++ after ∧ Text.newline ∉ more ∧
    ∀ b ∈ after.head?, b = Text.newline := by
  refine ⟨v.takeWhile (· ≠ Text.newline), v.dropWhile (· ≠ Text.newline),
    List.takeWhile_append_dropWhile.symm, fun mem => ?_, fun b first => ?_⟩
  · simpa using List.all_eq_true.1 List.all_takeWhile _ mem
  · have stopped := List.head?_dropWhile_not (· ≠ Text.newline) v
    rw [first] at stopped
    simpa using stopped

theorem newline_not_mem {part : Text} (free : Text.newline ∉ part) :
    ∀ g ∈ part.glyphs, g ≠ .char '\n' := by
  rintro g mem rfl
  exact free ((Text.ascii_mem_glyphs (by decide)).1 mem)

namespace Text

theorem Cut.behind {u v w : Text} (first : Cut u v) (second : Cut (u ++ v) w)
    (whole : Cut u (v ++ w)) : Cut v w := by
  unfold Cut at *
  rw [List.append_assoc, whole, first, List.append_assoc] at second
  exact List.append_cancel_left second

theorem cut_of_starts {before : Text} (starts : ∀ b ∈ before.getLast?, b = newline) (v : Text) :
    Cut before v := by
  induction before using List.reverseRecOn with
  | nil => exact cut_nil v
  | append_singleton before b =>
    cases starts b (by simp)
    have behind := glyphs_append_ascii (b := newline) (by decide) before v
    have alone := glyphs_append_ascii (b := newline) (by decide) before []
    rw [Cut, List.append_assoc, List.singleton_append, behind, alone, glyphs_nil]
    simp

theorem cut_of_ends {after : Text} (ends : ∀ b ∈ after.head?, b = newline) (u : Text) :
    Cut u after := by
  cases after with
  | nil => simp [Cut]
  | cons b after =>
    cases ends b rfl
    exact cut_ascii (by decide) u after

end Text

namespace Pos

theorem behind_of_starts {before : Text} (starts : ∀ b ∈ before.getLast?, b = Text.newline) :
    behind before = ⟨1 + before.count Text.newline, 1⟩ := by
  induction before using List.reverseRecOn with
  | nil => exact behind_nil
  | append_singleton before b =>
    cases starts b (by simp)
    have alone := Text.glyphs_append_ascii (b := Text.newline) (by decide) before []
    rw [behind, alone, Text.glyphs_nil, List.rtakeWhile_concat_neg _ _ _ (by decide)]
    rfl

theorem afterAll_free {gs : List Glyph} (free : ∀ g ∈ gs, g ≠ .char '\n') (p : Pos) :
    p.afterAll gs = ⟨p.line, p.col + gs.length⟩ := by
  induction gs generalizing p with
  | nil => simp [afterAll]
  | cons g gs ih =>
    obtain ⟨here, later⟩ := List.forall_mem_cons.1 free
    have step : p.after g = ⟨p.line, p.col + 1⟩ := if_neg here
    change (p.after g).afterAll gs = _
    rw [ih later, step, List.length_cons]
    simp only [mk.injEq, true_and]
    omega

end Pos

/-- Between two glyphs of a text: the line there with what it has before and after, and the numbers
of its line and column. -/
theorem exists_line {u v : Text} (cut : Text.Cut u v) :
    ∃ before part more after, u = before ++ part ∧ v = more ++ after ∧
      WholeLine before (part ++ more) after ∧
      Pos.behind u = ⟨1 + before.count Text.newline, 1 + part.glyphs.length⟩ ∧
      Text.Cut part more ∧ Text.Cut more after := by
  obtain ⟨before, part, rfl, starts, free⟩ := exists_lineStart u
  obtain ⟨more, after, rfl, free', ends⟩ := exists_lineEnd v
  -- no glyph reaches over a newline, so only the given cut is between glyphs of one line
  have inner := Text.cut_of_ends ends more
  have outer := Text.cut_of_starts starts part
  have whole := outer.behind (cut.assoc inner).1 (Text.cut_of_starts starts (part ++ more))
  refine ⟨before, part, more, after, rfl, rfl, ⟨starts, by simp [free, free'], ends⟩, ?_, whole,
    inner⟩
  rw [Pos.behind_append outer, Pos.behind_of_starts starts, Pos.afterAll_free (newline_not_mem free)]

end StackLang
