import StackLang.Token.Lexer

/-! What one call of a cursor can do: find the end behind spaces, or pass over spaces to a glyph and
take the glyphs that the scanner asks for. -/
namespace StackLang

namespace Token
open Glyph

theorem scan_le (pos : Pos) (g : Glyph) (rest : List Glyph) : (scan pos g rest).2 ≤ rest.length := by
  have run (p : Glyph → Bool) : (rest.takeWhile p).length ≤ rest.length :=
    (List.takeWhile_prefix p).length_le
  have word : (scanWord pos g rest).2 ≤ rest.length := by
    simp only [scanWord]
    repeat' split
    all_goals exact run _
  have string : (scanString pos rest).2 ≤ rest.length := by
    have inside := run fun h => decide (h ≠ char '"')
    simp only [scanString]
    split <;> omega
  have mark : (scanMark pos g rest).2 ≤ rest.length := by
    have pair {c : Char} {long short : Kind} : (if rest.head? = some (char c) then
        (.ok { kind := long, pos }, 1) else (.ok { kind := short, pos }, 0) : Found).2 ≤
          rest.length := by
      cases rest with
      | nil => exact Nat.le_refl _
      | cons h rest => split <;> simp
    simp only [scanMark]
    split <;> first | exact pair | exact Nat.zero_le _
  simp only [scan]
  repeat' split
  all_goals first | exact run _ | exact word | exact string | exact mark

end Token

namespace Cursor

theorem skipSpace_eq (c : Cursor) : c.skipSpace =
    ⟨c.rest.dropWhile Glyph.isSpace, c.pos.afterAll (c.rest.takeWhile Glyph.isSpace)⟩ := by
  have taken := (List.prefix_iff_eq_take.1 (List.takeWhile_prefix Glyph.isSpace (l := c.rest))).symm
  have dropped := congrArg (List.drop (c.rest.takeWhile Glyph.isSpace).length)
    (List.takeWhile_append_dropWhile (p := Glyph.isSpace) (l := c.rest))
  rw [List.drop_left] at dropped
  simp only [skipSpace, advance, taken, ← dropped]

structure AtEnd (c : Cursor) : Prop where
  spaces : ∀ g ∈ c.rest, g.isSpace = true
  found : c.next = (.ok { kind := .eof, pos := c.pos.afterAll c.rest }, ⟨[], c.pos.afterAll c.rest⟩)

/-- The call passes over `blank`, scans from `g` on, and takes `g` with the glyphs `gs`. -/
structure Takes (c : Cursor) (blank : List Glyph) (g : Glyph) (gs hs : List Glyph) : Prop where
  rest : c.rest = blank ++ g :: (gs ++ hs)
  spaces : ∀ h ∈ blank, h.isSpace = true
  other : g.isSpace = false
  size : (Token.scan (c.pos.afterAll blank) g (gs ++ hs)).2 = gs.length
  found : c.next = ((Token.scan (c.pos.afterAll blank) g (gs ++ hs)).1,
    ⟨hs, (c.pos.afterAll blank).afterAll (g :: gs)⟩)

theorem next_cases (c : Cursor) : c.AtEnd ∨ ∃ blank g gs hs, c.Takes blank g gs hs := by
  have split := List.takeWhile_append_dropWhile (p := Glyph.isSpace) (l := c.rest)
  have spaces : ∀ h ∈ c.rest.takeWhile Glyph.isSpace, h.isSpace = true :=
    List.all_eq_true.1 List.all_takeWhile
  have skipped := c.skipSpace_eq
  have stopped := List.head?_dropWhile_not Glyph.isSpace c.rest
  generalize c.rest.takeWhile Glyph.isSpace = blank at split spaces skipped
  cases left : c.rest.dropWhile Glyph.isSpace with
  | nil =>
    rw [left, List.append_nil] at split
    rw [left, split] at skipped
    exact .inl ⟨split ▸ spaces, by simp only [next, skipped]⟩
  | cons g more =>
    rw [left] at split skipped stopped
    have few := Token.scan_le (c.pos.afterAll blank) g more
    refine .inr ⟨blank, g, more.take (Token.scan (c.pos.afterAll blank) g more).2,
      more.drop (Token.scan (c.pos.afterAll blank) g more).2, ?_⟩
    constructor
    · rw [List.take_append_drop, split]
    · exact spaces
    · exact stopped
    · rw [List.take_append_drop, List.length_take, Nat.min_eq_left few]
    · rw [List.take_append_drop]
      simp only [next, skipped, advance, List.drop_succ_cons, List.take_succ_cons]

end Cursor
end StackLang
