import StackLang.Proofs.Token.Cursor
import StackLang.Proofs.Token.Lexeme
import StackLang.Proofs.Token.Place

/-! Where a call of a cursor points. A token stands at its first glyph; a fault stands at a glyph that
is no space and that its trouble is about, and the call takes all that comes before this glyph. -/
namespace StackLang

/-- The trouble is about the glyph: the one that was not expected, or the first of the number. -/
def LexTrouble.Blames : LexTrouble → Glyph → Prop
  | outOfRange number, g => number.glyphs.head? = some g
  | unexpected h, g => h = g
  | unexpectedAfter h _, g => h = g

namespace Token
open Glyph

theorem scanWord_pos {pos : Pos} {g : Glyph} {rest : List Glyph} {t : Token}
    (found : (scanWord pos g rest).1 = .ok t) : t.pos = pos := by
  have placed (text : Text) : (word pos text).pos = pos := by
    unfold word
    split <;> rfl
  simp only [scanWord] at found
  split at found
  · split at found
    · cases found
      exact placed _
    · cases found
  · cases found
    exact placed _

theorem number_pos {pos : Pos} {negative : Bool} {digits lexeme : List Glyph} {t : Token}
    (found : number pos negative digits lexeme = .ok t) : t.pos = pos := by
  simp only [number] at found
  generalize (if negative = true then -(digitsValue digits : Int) else digitsValue digits) = n
    at found
  split at found
  · cases found
    rfl
  · cases found

theorem scanMark_pos {pos : Pos} {g : Glyph} {rest : List Glyph} {t : Token}
    (found : (scanMark pos g rest).1 = .ok t) : t.pos = pos := by
  have pair {c : Char} {long short : Kind} (found : (if rest.head? = some (.char c) then
      (.ok { kind := long, pos }, 1) else (.ok { kind := short, pos }, 0) : Found).1 = .ok t) :
      t.pos = pos := by
    split at found
    · cases found
      rfl
    · cases found
      rfl
  simp only [scanMark] at found
  split at found
  case h_1 | h_2 | h_3 | h_4 => exact pair found
  all_goals
    cases found
    try rfl

theorem scan_pos {pos : Pos} {g : Glyph} {rest : List Glyph} {t : Token}
    (found : (scan pos g rest).1 = .ok t) : t.pos = pos := by
  simp only [scan] at found
  split at found
  · exact number_pos found
  split at found
  · exact number_pos found
  split at found
  · exact scanWord_pos found
  split at found
  · cases found
    rfl
  · exact scanMark_pos found

/-- The glyphs `gs` are taken and `hs` are left; the fault stands at one of them, `culprit`, and is
about it. -/
def FaultAmong (pos : Pos) (gs hs : List Glyph) (e : LexFault) : Prop :=
  ∃ before more culprit, gs = before ++ more ∧ (more ++ hs).head? = some culprit ∧
    e.pos = pos.afterAll before ∧ e.trouble.Blames culprit ∧ culprit.isSpace = false

theorem head?_glyphText {b : UInt8} (small : b.toNat < 0x80) (gs : List Glyph) :
    (glyphText (ascii b :: gs)).glyphs.head? = some (ascii b) := by
  have bytes : (ascii b).bytes = [b] := encode_ascii small
  rw [glyphText, List.flatMap_cons, bytes, List.singleton_append, Text.glyphs_cons_ascii small]
  rfl

variable {pos : Pos} {g : Glyph} {gs hs : List Glyph} {e : LexFault}

/-- The whole number is at fault if it is out of range. -/
theorem number_faultAmong {b : UInt8} {negative : Bool} {digits more : List Glyph}
    (small : b.toNat < 0x80) (other : (ascii b).isSpace = false)
    (failed : number pos negative digits (ascii b :: more) = .error e) :
    FaultAmong pos (ascii b :: gs) hs e := by
  refine ⟨[], ascii b :: gs, ascii b, rfl, rfl, ?_⟩
  unfold number at failed
  extract_lets n at failed
  by_cases fits : -2147483648 ≤ n ∧ n ≤ 2147483647
  · rw [if_pos fits] at failed
    cases failed
  · rw [if_neg fits] at failed
    cases failed
    exact ⟨rfl, head?_glyphText small more, other⟩

theorem scanWord_faultAmong (failed : scanWord pos g (gs ++ hs) = (.error e, gs.length)) :
    FaultAmong pos (g :: gs) hs e := by
  have size : ((gs ++ hs).takeWhile isWordPart).length = gs.length := by
    simp only [scanWord] at failed
    repeat' split at failed
    all_goals exact congrArg Prod.snd failed
  have part := List.prefix_iff_eq_take.1 (List.takeWhile_prefix isWordPart (l := gs ++ hs))
  rw [size, List.take_left] at part
  simp only [scanWord, part, List.drop_left] at failed
  split at failed
  · rename_i next first
    split at failed
    · cases failed
    · rename_i other
      cases failed
      exact ⟨g :: gs, [], next, by simp, first, rfl, rfl, by simpa using other⟩
  · cases failed

theorem scanMark_faultAmong (other : g.isSpace = false)
    (failed : (scanMark pos g (gs ++ hs)).1 = .error e) : FaultAmong pos (g :: gs) hs e := by
  have pair {c : Char} {long short : Kind} : (if (gs ++ hs).head? = some (.char c) then
      (.ok { kind := long, pos }, 1) else (.ok { kind := short, pos }, 0) : Found).1 ≠ .error e := by
    split <;> simp
  refine ⟨[], g :: gs, g, rfl, rfl, ?_⟩
  simp only [scanMark] at failed
  split at failed
  case h_1 | h_2 | h_3 | h_4 => exact absurd failed pair
  all_goals
    cases failed
  exact ⟨rfl, rfl, other⟩

theorem scan_faultAmong (other : g.isSpace = false)
    (failed : scan pos g (gs ++ hs) = (.error e, gs.length)) : FaultAmong pos (g :: gs) hs e := by
  simp only [scan] at failed
  split at failed
  · rename_i digit
    obtain ⟨b, isDigit, rfl⟩ := (isDigit_iff g).1 digit
    have range := isDigitByte_iff.1 isDigit
    exact number_faultAmong (by omega) other (congrArg Prod.fst failed)
  split at failed
  · rename_i minus
    obtain ⟨rfl, -⟩ := minus
    exact number_faultAmong (b := 0x2D) (by decide) (by decide) (congrArg Prod.fst failed)
  split at failed
  · exact scanWord_faultAmong failed
  split at failed
  · cases congrArg Prod.fst failed
  · exact scanMark_faultAmong other (congrArg Prod.fst failed)

end Token

namespace Cursor

theorem next_fault {c after : Cursor} {e : LexFault} (found : c.next = (.error e, after)) :
    ∃ gs, c.rest = gs ++ after.rest ∧ after.pos = c.pos.afterAll gs ∧
      Token.FaultAmong c.pos gs after.rest e := by
  rcases next_cases c with ended | ⟨blank, g, gs, hs, takes⟩
  · cases found.symm.trans ended.found
  · obtain ⟨scanned, rfl⟩ := Prod.mk.inj (found.symm.trans takes.found)
    obtain ⟨before, more, culprit, taken, first, place, about⟩ :=
      Token.scan_faultAmong takes.other (Prod.ext scanned.symm takes.size)
    refine ⟨blank ++ g :: gs, by simp [takes.rest], (Pos.afterAll_append ..).symm, ?_⟩
    refine ⟨blank ++ before, more, culprit, by simp [taken], first, ?_, about⟩
    rw [place, Pos.afterAll_append]

end Cursor
end StackLang
