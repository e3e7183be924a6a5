import Mathlib.Data.List.DropRight
import StackLang.Proofs.Text.Cut

/-! Where the next glyph stands. Going from glyph to glyph is counting newlines, and glyphs since
the last newline; what comes before the first line only moves the lines. -/
namespace StackLang
namespace Pos

/-- The place behind a text that begins at the start. -/
def behind (before : Text) : Pos where
  line := 1 + before.count Text.newline
  col := 1 + (before.glyphs.rtakeWhile (· ≠ .char '\n')).length

theorem afterAll_append (p : Pos) (gs hs : List Glyph) :
    p.afterAll (gs ++ hs) = (p.afterAll gs).afterAll hs := by
  simp [afterAll]

theorem afterAll_start (gs : List Glyph) :
    start.afterAll gs =
      ⟨1 + gs.count (.char '\n'), 1 + (gs.rtakeWhile (· ≠ .char '\n')).length⟩ := by
  induction gs using List.reverseRecOn with
  | nil => rfl
  | append_singleton gs g ih =>
    rw [afterAll_append, ih, List.count_append, List.rtakeWhile_concat]
    by_cases newline : g = .char '\n'
    · simp [afterAll, after, newline]
      omega
    · simp [afterAll, after, newline]
      omega

theorem afterAll_glyphs (before : Text) : start.afterAll before.glyphs = behind before := by
  have lines : before.glyphs.count (.char '\n') = before.count Text.newline :=
    Text.count_glyphs (b := Text.newline) (by decide) before
  rw [afterAll_start, lines]
  rfl

theorem behind_nil : behind [] = start := by simp [behind, start]

theorem behind_append {u v : Text} (cut : Text.Cut u v) :
    behind (u ++ v) = (behind u).afterAll v.glyphs := by
  rw [← afterAll_glyphs, cut, afterAll_append, afterAll_glyphs]

def down (p : Pos) (lines : Nat) : Pos := { p with line := p.line + lines }

theorem afterAll_down (p : Pos) (lines : Nat) (gs : List Glyph) :
    (p.down lines).afterAll gs = (p.afterAll gs).down lines := by
  induction gs generalizing p with
  | nil => rfl
  | cons g gs ih =>
    have step : (p.down lines).after g = (p.after g).down lines := by
      unfold after
      split
      · simp only [down, mk.injEq, and_true]
        omega
      · rfl
    change ((p.down lines).after g).afterAll gs = _
    rw [step, ih]
    rfl

theorem behind_newline (t : Text) :
    (behind t).after (.char '\n') = start.down (1 + t.count Text.newline) := by
  simp only [after, behind, down, start, if_true, mk.injEq, and_true]
  omega

end Pos
end StackLang
