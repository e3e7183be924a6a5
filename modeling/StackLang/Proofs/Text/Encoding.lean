import StackLang.Proofs.Text.Cut

/-! Encoded characters. The encoding of a character is read as that character wherever it stands, so
the glyphs of a text tell which of its bytes are part of one; the others show as the replacement
character. -/
namespace StackLang

theorem encode_eq (c : Char) : encode c = String.utf8EncodeChar c := by
  have top := Glyph.char_lt c
  have value : c.val.toNat = c.toNat := rfl
  simp only [encode, String.utf8EncodeChar, value, Nat.le_iff_lt_add_one, Nat.reduceAdd]
  split
  · rfl
  split
  · have lead : c.toNat / 64 % 32 = c.toNat / 64 := by omega
    simp only [lead, Nat.add_comm]
  split
  · have lead : c.toNat / 4096 % 16 = c.toNat / 4096 := by omega
    simp only [lead, Nat.add_comm]
  · have lead : c.toNat / 262144 % 8 = c.toNat / 262144 := by omega
    simp only [lead, Nat.add_comm]

namespace Glyph

theorem toNat_byte {n : Nat} (small : n < 256) : (UInt8.ofNat n).toNat = n := by
  rw [UInt8.toNat_ofNat']
  omega

theorem continued?_cons (d k n : Nat) (t : Text) :
    continued? (k + 1) n (UInt8.ofNat (0x80 + d % 64) :: t) = continued? k (n * 64 + d % 64) t := by
  have payload : (0x80 + d % 64) % 64 = d % 64 := by omega
  rw [continued?, toNat_byte (by omega), if_pos (by omega), payload]

theorem scalar?_toNat {least : Nat} {c : Char} (most : least ≤ c.toNat) :
    scalar? least c.toNat = some c := by
  have valid : c.toNat.isValidChar := c.valid
  rw [scalar?, if_pos ⟨most, valid⟩, Char.ofNat_toNat]

/-- The bytes begin a character and are read as this one, whatever follows. -/
def Reads (bytes : Text) (c : Char) : Prop :=
  ∃ b more, bytes = b :: more ∧ ¬ Continues b ∧
    ∀ rest, leading? b (more ++ rest) = some (c, rest)

theorem read_of_continued {c : Char} {k p least : Nat} {t rest : Text} (most : least ≤ c.toNat)
    (seen : continued? k p t = some (c.toNat, rest)) :
    ((continued? k p t).bind fun (n, after) => (scalar? least n).map (·, after)) =
      some (c, rest) := by
  simp [seen, scalar?_toNat most]

theorem reads_one {c : Char} (small : c.toNat < 0x80) : Reads [.ofNat c.toNat] c := by
  have lead : (UInt8.ofNat c.toNat).toNat = c.toNat := toNat_byte (by omega)
  refine ⟨_, _, rfl, ?_, fun rest => ?_⟩
  · rw [Continues, lead]
    omega
  · simp only [leading?, lead, if_pos small]
    exact read_of_continued (Nat.zero_le _) (by rw [List.nil_append, continued?])

theorem reads_two {c : Char} (least : 0x80 ≤ c.toNat) (most : c.toNat < 0x800) :
    Reads [.ofNat (0xC0 + c.toNat / 64), .ofNat (0x80 + c.toNat % 64)] c := by
  have lead : (UInt8.ofNat (0xC0 + c.toNat / 64)).toNat = 0xC0 + c.toNat / 64 :=
    toNat_byte (by omega)
  have value : c.toNat / 64 * 64 + c.toNat % 64 = c.toNat := by omega
  refine ⟨_, _, rfl, ?_, fun rest => ?_⟩
  · rw [Continues, lead]
    omega
  · simp only [leading?, lead]
    rw [if_neg (by omega), if_neg (by omega), if_pos (by omega), Nat.add_sub_cancel_left]
    apply read_of_continued least
    rw [List.cons_append, continued?_cons, List.nil_append, continued?, value]

theorem reads_three {c : Char} (least : 0x800 ≤ c.toNat) (most : c.toNat < 0x10000) :
    Reads [.ofNat (0xE0 + c.toNat / 4096), .ofNat (0x80 + c.toNat / 64 % 64),
      .ofNat (0x80 + c.toNat % 64)] c := by
  have lead : (UInt8.ofNat (0xE0 + c.toNat / 4096)).toNat = 0xE0 + c.toNat / 4096 :=
    toNat_byte (by omega)
  have value : (c.toNat / 4096 * 64 + c.toNat / 64 % 64) * 64 + c.toNat % 64 = c.toNat := by omega
  refine ⟨_, _, rfl, ?_, fun rest => ?_⟩
  · rw [Continues, lead]
    omega
  · simp only [leading?, lead]
    rw [if_neg (by omega), if_neg (by omega), if_neg (by omega), if_pos (by omega),
      Nat.add_sub_cancel_left]
    apply read_of_continued least
    simp only [List.cons_append, continued?_cons, List.nil_append]
    rw [continued?, value]

theorem reads_four {c : Char} (least : 0x10000 ≤ c.toNat) :
    Reads [.ofNat (0xF0 + c.toNat / 262144), .ofNat (0x80 + c.toNat / 4096 % 64),
      .ofNat (0x80 + c.toNat / 64 % 64), .ofNat (0x80 + c.toNat % 64)] c := by
  have top := char_lt c
  have lead : (UInt8.ofNat (0xF0 + c.toNat / 262144)).toNat = 0xF0 + c.toNat / 262144 :=
    toNat_byte (by omega)
  have value : ((c.toNat / 262144 * 64 + c.toNat / 4096 % 64) * 64 + c.toNat / 64 % 64) * 64 +
    c.toNat % 64 = c.toNat := by omega
  refine ⟨_, _, rfl, ?_, fun rest => ?_⟩
  · rw [Continues, lead]
    omega
  · simp only [leading?, lead]
    rw [if_neg (by omega), if_neg (by omega), if_neg (by omega), if_neg (by omega),
      if_pos (by omega), Nat.add_sub_cancel_left]
    apply read_of_continued least
    simp only [List.cons_append, continued?_cons, List.nil_append]
    rw [continued?, value]

theorem reads_encode (c : Char) : Reads (encode c) c := by
  unfold encode
  dsimp only
  split
  · exact reads_one (by omega)
  split
  · exact reads_two (by omega) (by omega)
  split
  · exact reads_three (by omega) (by omega)
  · exact reads_four (by omega)

end Glyph

namespace Text
open Glyph

/-- The encoding of a character is read as that character wherever it stands. -/
theorem glyphs_encode (u : Text) (c : Char) (v : Text) :
    glyphs (u ++ (encode c ++ v)) = glyphs u ++ .char c :: glyphs v := by
  obtain ⟨b, more, encoded, fresh, read⟩ := reads_encode c
  rw [encoded, List.cons_append, glyphs_append fresh, glyphs_char (read v)]

theorem glyphs_chars (cs : List Char) : glyphs (cs.flatMap encode) = cs.map .char := by
  induction cs with
  | nil => exact glyphs_nil
  | cons c cs ih =>
    have first := glyphs_encode [] c (cs.flatMap encode)
    rw [List.nil_append, glyphs_nil, List.nil_append, ih] at first
    exact first

/-- The byte at `k` is part of an encoded character. -/
def InCharacter (t : Text) (k : Nat) : Prop :=
  ∃ u c v, t = u ++ (String.utf8EncodeChar c ++ v) ∧ u.length ≤ k ∧
    k < u.length + (String.utf8EncodeChar c).length

/-- Byte by byte, `out` is `t` with each byte that is no part of a character replaced. -/
def Mends (t out : Text) : Prop :=
  ∃ pieces : List Text, out = pieces.flatten ∧ pieces.length = t.length ∧
    (∀ k, t.InCharacter k → pieces[k]? = t[k]?.map fun b => [b]) ∧
    ∀ k < t.length, ¬ t.InCharacter k → pieces[k]? = some [0xEF, 0xBF, 0xBD]

def shown (t : Text) : Text := t.glyphs.flatMap fun g => encode g.shown

end Text

namespace Glyph

def pieces : Glyph → List Text
  | char c => (encode c).map fun b => [b]
  | stray _ => [encode (Char.ofNat 0xFFFD)]

theorem length_pieces (g : Glyph) : g.pieces.length = g.bytes.length := by
  cases g with
  | char c => exact List.length_map _
  | stray b => rfl

theorem flatten_pieces (g : Glyph) : g.pieces.flatten = encode g.shown := by
  cases g with
  | char c => exact List.flatMap_singleton' (encode c)
  | stray b => exact List.append_nil _

end Glyph

theorem length_pieces (gs : List Glyph) :
    (gs.flatMap Glyph.pieces).length = (glyphText gs).length := by
  simp only [glyphText, List.length_flatMap, Glyph.length_pieces]

theorem glyph_at (gs : List Glyph) {k : Nat} (inside : k < (glyphText gs).length) :
    ∃ before g after, gs = before ++ g :: after ∧ (glyphText before).length ≤ k ∧
      k < (glyphText before).length + g.bytes.length := by
  induction gs generalizing k with
  | nil => cases inside
  | cons g gs ih =>
    by_cases here : k < g.bytes.length
    · exact ⟨[], g, gs, rfl, Nat.zero_le k, by simpa [glyphText] using here⟩
    · have size : (glyphText (g :: gs)).length = g.bytes.length + (glyphText gs).length := by
        simp [glyphText]
      obtain ⟨before, h, after, rfl, least, most⟩ := ih (k := k - g.bytes.length) (by omega)
      have longer : (glyphText (g :: before)).length =
          g.bytes.length + (glyphText before).length := by
        simp [glyphText]
      exact ⟨g :: before, h, after, rfl, by omega, by omega⟩

namespace Text
open Glyph

theorem shown_eq (t : Text) : t.shown = (t.glyphs.flatMap pieces).flatten := by
  rw [← List.flatMap_id, List.flatMap_assoc]
  simp only [List.flatMap_id, flatten_pieces, shown]

theorem mends_shown (t : Text) : Mends t t.shown := by
  have size (u : Text) : (u.glyphs.flatMap pieces).length = u.length := by
    rw [length_pieces, glyphText_glyphs]
  refine ⟨t.glyphs.flatMap pieces, shown_eq t, size t, ?_, ?_⟩
  · rintro k ⟨u, c, v, rfl, least, most⟩
    rw [← encode_eq] at most ⊢
    have first := size u
    have within : k - u.length < (encode c).length := by omega
    have also : k - u.length < (pieces (.char c)).length := by rwa [Glyph.length_pieces]
    rw [glyphs_encode, List.flatMap_append, List.flatMap_cons,
      List.getElem?_append_right (by omega), first, List.getElem?_append_left also,
      List.getElem?_append_right least, List.getElem?_append_left within]
    exact List.getElem?_map ..
  · intro k inside outside
    obtain ⟨before, g, after, split, least, most⟩ := glyph_at t.glyphs (k := k)
      (by rwa [glyphText_glyphs])
    cases g with
    | char c =>
      refine absurd ⟨glyphText before, c, glyphText after, ?_, least, ?_⟩ outside
      · rw [← encode_eq, ← glyphText_glyphs t, split]
        simp [glyphText, bytes]
      · rw [← encode_eq]
        exact most
    | stray b =>
      have place : k = (glyphText before).length := by simp [bytes] at most; omega
      rw [split, List.flatMap_append, List.getElem?_append_right (by rw [length_pieces]; omega),
        length_pieces, place, Nat.sub_self]
      rfl

theorem shown_chars (cs : List Char) : shown (cs.flatMap encode) = cs.flatMap encode := by
  rw [shown, glyphs_chars, List.flatMap_map]
  rfl

end Text

end StackLang
