import StackLang.Token.Lexer

/-! A text and its glyphs. Nothing is lost on the way, and a byte that continues no character ends
whatever stands before it, so a text may be cut before any such byte. An ASCII byte is a glyph of
its own. -/
namespace StackLang

namespace Glyph

def ascii (b : UInt8) : Glyph := .char (Char.ofNat b.toNat)

theorem leading?_ascii {b : UInt8} (small : b.toNat < 0x80) (rest : Text) :
    leading? b rest = some (Char.ofNat b.toNat, rest) := by
  have valid : b.toNat.isValidChar := Or.inl (by omega)
  simp [leading?, small, continued?, scalar?, valid]

def Continues (b : UInt8) : Prop := 0x80 ≤ b.toNat ∧ b.toNat < 0xC0

theorem continued?_append {b : UInt8} (fresh : ¬ Continues b) (u t : Text) (k n : Nat) :
    continued? k n (t ++ b :: u) =
      (continued? k n t).map fun (m, rest) => (m, rest ++ b :: u) := by
  induction t generalizing k n with
  | nil =>
    cases k with
    | zero => simp [continued?]
    | succ k =>
      have outside : ¬ (0x80 ≤ b.toNat ∧ b.toNat < 0xC0) := fresh
      simp [continued?, outside]
  | cons a t ih =>
    cases k with
    | zero => simp [continued?]
    | succ k =>
      simp only [List.cons_append, continued?]
      split
      · exact ih k _
      · rfl

theorem leading?_append {b : UInt8} (fresh : ¬ Continues b) (u : Text) (a : UInt8) (t : Text) :
    leading? a (t ++ b :: u) = (leading? a t).map fun (c, rest) => (c, rest ++ b :: u) := by
  have read (k p l : Nat) :
      ((continued? k p (t ++ b :: u)).bind fun (n, after) => (scalar? l n).map (·, after)) =
        ((continued? k p t).bind fun (n, after) => (scalar? l n).map (·, after)).map
          fun (c, rest) => (c, rest ++ b :: u) := by
    rw [continued?_append fresh]
    cases continued? k p t with
    | none => rfl
    | some seen => cases found : scalar? l seen.1 <;> simp [found]
  simp only [leading?, read]
  repeat' split
  all_goals rfl

theorem continued?_step {k n m : Nat} {t rest : Text}
    (seen : continued? (k + 1) n t = some (m, rest)) :
    ∃ d : Nat, d < 64 ∧ ∃ t', t = UInt8.ofNat (0x80 + d) :: t' ∧
      continued? k (n * 64 + d) t' = some (m, rest) := by
  cases t with
  | nil => simp [continued?] at seen
  | cons b t =>
    simp only [continued?] at seen
    split at seen
    · rename_i range
      refine ⟨b.toNat % 64, by omega, t, ?_, seen⟩
      have value : 0x80 + b.toNat % 64 = b.toNat := by omega
      rw [value, UInt8.ofNat_toNat]
    · cases seen

theorem continued?_zero {n m : Nat} {t rest : Text} (seen : continued? 0 n t = some (m, rest)) :
    n = m ∧ t = rest := by
  cases t <;> simpa [continued?] using seen

theorem scalar?_eq_some {least n : Nat} {c : Char} (found : scalar? least n = some c) :
    least ≤ n ∧ c.toNat = n := by
  unfold scalar? at found
  split at found
  · rename_i range
    cases found
    refine ⟨range.1, ?_⟩
    rw [Char.ofNat, dif_pos range.2]
    rfl
  · cases found

theorem byte_eq {b : UInt8} {n : Nat} (value : b.toNat = n) : b = UInt8.ofNat n := by
  rw [← value, UInt8.ofNat_toNat]

theorem encode_two {b : UInt8} {c : Char} {t rest : Text} (lead : 0xC0 ≤ b.toNat ∧ b.toNat < 0xE0)
    (least : 0x80 ≤ c.toNat) (seen : continued? 1 (b.toNat - 0xC0) t = some (c.toNat, rest)) :
    b :: t = encode c ++ rest := by
  obtain ⟨d, small, u, rfl, ended⟩ := continued?_step seen
  obtain ⟨value, rfl⟩ := continued?_zero ended
  have upper : c.toNat < 0x800 := by omega
  have first : b = .ofNat (0xC0 + c.toNat / 64) := byte_eq (by omega)
  have last : d = c.toNat % 64 := by omega
  simp [encode, Nat.not_lt.2 least, upper, first, last]

theorem encode_three {b : UInt8} {c : Char} {t rest : Text}
    (lead : 0xE0 ≤ b.toNat ∧ b.toNat < 0xF0) (least : 0x800 ≤ c.toNat)
    (seen : continued? 2 (b.toNat - 0xE0) t = some (c.toNat, rest)) :
    b :: t = encode c ++ rest := by
  obtain ⟨d, small, u, rfl, more⟩ := continued?_step seen
  obtain ⟨e, small', v, rfl, ended⟩ := continued?_step more
  obtain ⟨value, rfl⟩ := continued?_zero ended
  have above : ¬ c.toNat < 0x80 := by omega
  have upper : c.toNat < 0x10000 := by omega
  have first : b = .ofNat (0xE0 + c.toNat / 4096) := byte_eq (by omega)
  have second : d = c.toNat / 64 % 64 := by omega
  have last : e = c.toNat % 64 := by omega
  simp [encode, above, Nat.not_lt.2 least, upper, first, second, last]

theorem encode_four {b : UInt8} {c : Char} {t rest : Text}
    (lead : 0xF0 ≤ b.toNat ∧ b.toNat < 0xF8) (least : 0x10000 ≤ c.toNat)
    (seen : continued? 3 (b.toNat - 0xF0) t = some (c.toNat, rest)) :
    b :: t = encode c ++ rest := by
  obtain ⟨d, small, u, rfl, more⟩ := continued?_step seen
  obtain ⟨e, small', v, rfl, still⟩ := continued?_step more
  obtain ⟨f, small'', w, rfl, ended⟩ := continued?_step still
  obtain ⟨value, rfl⟩ := continued?_zero ended
  have above : ¬ c.toNat < 0x80 := by omega
  have above' : ¬ c.toNat < 0x800 := by omega
  have first : b = .ofNat (0xF0 + c.toNat / 262144) := byte_eq (by omega)
  have second : d = c.toNat / 4096 % 64 := by omega
  have third : e = c.toNat / 64 % 64 := by omega
  have last : f = c.toNat % 64 := by omega
  simp [encode, above, above', Nat.not_lt.2 least, first, second, third, last]

/-- A character is read off its own encoding. -/
theorem leading?_encode {b : UInt8} {c : Char} {t rest : Text}
    (h : leading? b t = some (c, rest)) : b :: t = encode c ++ rest := by
  -- for every length alike, the bytes add up to the character, which needs all of them
  have read {k p l : Nat}
      (h : ((continued? k p t).bind fun (n, after) => (scalar? l n).map (·, after)) =
        some (c, rest)) : l ≤ c.toNat ∧ continued? k p t = some (c.toNat, rest) := by
    obtain ⟨⟨n, after⟩, seen, found⟩ := Option.bind_eq_some_iff.1 h
    obtain ⟨d, valid, same⟩ := Option.map_eq_some_iff.1 found
    cases same
    obtain ⟨least, rfl⟩ := scalar?_eq_some valid
    exact ⟨least, seen⟩
  simp only [leading?] at h
  split at h
  · rename_i small
    obtain ⟨value, rfl⟩ := continued?_zero (read h).2
    have low : c.toNat < 0x80 := value ▸ small
    simp [encode, low, byte_eq value]
  split at h
  · cases h
  split at h
  · exact encode_two ⟨by omega, by omega⟩ (read h).1 (read h).2
  split at h
  · exact encode_three ⟨by omega, by omega⟩ (read h).1 (read h).2
  split at h
  · exact encode_four ⟨by omega, by omega⟩ (read h).1 (read h).2
  · cases h

theorem encode_ascii {b : UInt8} (small : b.toNat < 0x80) : encode (Char.ofNat b.toNat) = [b] := by
  have read := leading?_encode (leading?_ascii small [])
  simpa using read.symm

theorem char_lt (c : Char) : c.toNat < 0x110000 := by
  have valid := c.valid
  simp only [UInt32.isValidChar, Nat.isValidChar] at valid
  change c.val.toNat < _
  omega

theorem mem_encode_ascii {b : UInt8} {c : Char} (small : b.toNat < 0x80) (mem : b ∈ encode c) :
    c = Char.ofNat b.toNat := by
  by_cases low : c.toNat < 0x80
  · have same : b = UInt8.ofNat c.toNat := by simpa [encode, low] using mem
    have value : b.toNat = c.toNat := by
      rw [same, UInt8.toNat_ofNat']
      omega
    rw [value, Char.ofNat_toNat]
  · have top := char_lt c
    have high : ∀ n, 0x80 ≤ n → n < 256 → b ≠ UInt8.ofNat n := by
      rintro n least most rfl
      rw [UInt8.toNat_ofNat'] at small
      omega
    exfalso
    simp only [encode, low, if_false] at mem
    split at mem
    · simp only [List.mem_cons, List.not_mem_nil, or_false] at mem
      rcases mem with same | same <;> exact high _ (by omega) (by omega) same
    · split at mem
      · simp only [List.mem_cons, List.not_mem_nil, or_false] at mem
        rcases mem with same | same | same <;> exact high _ (by omega) (by omega) same
      · simp only [List.mem_cons, List.not_mem_nil, or_false] at mem
        rcases mem with same | same | same | same <;> exact high _ (by omega) (by omega) same

/-- A stray byte is never ASCII. -/
def Sound : Glyph → Prop
  | char _ => True
  | stray b => 0x80 ≤ b.toNat

theorem eq_ascii_of_mem {g : Glyph} {b : UInt8} (sound : g.Sound) (small : b.toNat < 0x80)
    (mem : b ∈ g.bytes) : g = ascii b := by
  cases g with
  | char c => exact congrArg char (mem_encode_ascii small mem)
  | stray a =>
    cases List.mem_singleton.1 mem
    exact absurd small (Nat.not_lt.2 sound)

end Glyph

namespace Text
open Glyph

theorem glyphsAfter_eq (t : Text) (read : List Glyph) :
    t.glyphsAfter read = read.reverse ++ t.glyphs := by
  have step (u : Text) : ∀ read, u.glyphsAfter read = read.reverse ++ u.glyphsAfter [] := by
    induction size : u.length using Nat.strongRecOn generalizing u with
    | ind size shorter =>
      intro read
      cases u with
      | nil => simp [glyphsAfter]
      | cons b rest =>
        rw [glyphsAfter, glyphsAfter]
        split
        · rename_i c after found
          have less := leading?_length found
          have tail := shorter after.length (by simp at size; omega) after rfl
          rw [tail (.char c :: read), tail [.char c]]
          simp
        · have tail := shorter rest.length (by simp at size; omega) rest rfl
          rw [tail (.stray b :: read), tail [.stray b]]
          simp
  exact step t read

@[simp] theorem glyphs_nil : glyphs [] = [] := by simp [glyphs, glyphsAfter]

theorem glyphs_char {b : UInt8} {c : Char} {t rest : Text}
    (found : leading? b t = some (c, rest)) : glyphs (b :: t) = .char c :: glyphs rest := by
  rw [glyphs, glyphsAfter]
  split
  · rename_i d after also
    cases found.symm.trans also
    rw [glyphsAfter_eq]
    rfl
  · rename_i nothing
    cases found.symm.trans nothing

theorem glyphs_stray {b : UInt8} {t : Text} (nothing : leading? b t = none) :
    glyphs (b :: t) = .stray b :: glyphs t := by
  rw [glyphs, glyphsAfter]
  split
  · rename_i found
    cases nothing.symm.trans found
  · rw [glyphsAfter_eq]
    rfl

/-- A text is taken apart glyph by glyph. -/
theorem glyph_induction {P : Text → Prop} (nil : P [])
    (char : ∀ b t c rest, leading? b t = some (c, rest) → P rest → P (b :: t))
    (stray : ∀ b t, leading? b t = none → P t → P (b :: t)) (t : Text) : P t := by
  induction size : t.length using Nat.strongRecOn generalizing t with
  | ind size shorter =>
    cases t with
    | nil => exact nil
    | cons b t =>
      simp only [List.length_cons] at size
      cases found : leading? b t with
      | none => exact stray b t found (shorter t.length (by omega) t rfl)
      | some seen =>
        obtain ⟨c, rest⟩ := seen
        have less := leading?_length found
        exact char b t c rest found (shorter rest.length (by omega) rest rfl)

theorem glyphs_cons_ascii {b : UInt8} (small : b.toNat < 0x80) (t : Text) :
    glyphs (b :: t) = ascii b :: glyphs t :=
  glyphs_char (leading?_ascii small t)

theorem glyphs_append {b : UInt8} (fresh : ¬ Continues b) (t u : Text) :
    glyphs (t ++ b :: u) = glyphs t ++ glyphs (b :: u) := by
  induction t using glyph_induction with
  | nil => simp
  | char a t c rest found ih =>
    have also : leading? a (t ++ b :: u) = some (c, rest ++ b :: u) := by
      rw [leading?_append fresh, found]
      rfl
    rw [List.cons_append, glyphs_char also, glyphs_char found, ih]
    rfl
  | stray a t nothing ih =>
    have also : leading? a (t ++ b :: u) = none := by
      rw [leading?_append fresh, nothing]
      rfl
    rw [List.cons_append, glyphs_stray also, glyphs_stray nothing, ih]
    rfl

/-- The glyphs before an ASCII byte are those of the text before it. -/
theorem glyphs_append_ascii {b : UInt8} (small : b.toNat < 0x80) (t u : Text) :
    glyphs (t ++ b :: u) = glyphs t ++ ascii b :: glyphs u := by
  have fresh : ¬ Continues b := fun continues => absurd small (Nat.not_lt.2 continues.1)
  rw [glyphs_append fresh, glyphs_cons_ascii small]

theorem glyphs_ascii {t : Text} (small : ∀ b ∈ t, b.toNat < 0x80) : t.glyphs = t.map ascii := by
  induction t with
  | nil => exact glyphs_nil
  | cons b t ih =>
    rw [glyphs_cons_ascii (small b List.mem_cons_self), ih fun a mem => small a (.tail _ mem)]
    rfl

@[simp] theorem glyphText_glyphs (t : Text) : glyphText t.glyphs = t := by
  induction t using glyph_induction with
  | nil => simp [glyphText]
  | char b t c rest found ih =>
    rw [glyphs_char found, leading?_encode found]
    exact congrArg (encode c ++ ·) ih
  | stray b t nothing ih =>
    rw [glyphs_stray nothing]
    exact congrArg (b :: ·) ih

theorem sound_glyphs (t : Text) : ∀ g ∈ t.glyphs, g.Sound := by
  induction t using glyph_induction with
  | nil => simp
  | char b t c rest found ih =>
    rw [glyphs_char found]
    exact List.forall_mem_cons.2 ⟨trivial, ih⟩
  | stray b t nothing ih =>
    rw [glyphs_stray nothing]
    refine List.forall_mem_cons.2 ⟨?_, ih⟩
    apply Nat.le_of_not_gt
    intro small
    rw [leading?_ascii small] at nothing
    cases nothing

end Text

theorem mem_glyphText_ascii {gs : List Glyph} (sound : ∀ g ∈ gs, g.Sound) {b : UInt8}
    (small : b.toNat < 0x80) : b ∈ glyphText gs ↔ Glyph.ascii b ∈ gs := by
  constructor
  · intro mem
    obtain ⟨g, held, inside⟩ := List.mem_flatMap.1 mem
    exact Glyph.eq_ascii_of_mem (sound g held) small inside ▸ held
  · intro held
    refine List.mem_flatMap.2 ⟨_, held, ?_⟩
    change b ∈ encode (Char.ofNat b.toNat)
    rw [Glyph.encode_ascii small]
    exact List.mem_singleton_self b

theorem Text.ascii_mem_glyphs {b : UInt8} (small : b.toNat < 0x80) {t : Text} :
    Glyph.ascii b ∈ t.glyphs ↔ b ∈ t := by
  rw [← mem_glyphText_ascii (Text.sound_glyphs t) small, Text.glyphText_glyphs]

end StackLang
