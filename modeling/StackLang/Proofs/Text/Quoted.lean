import StackLang.Proofs.Text.Encoding
import StackLang.Proofs.Text.Numeral
import StackLang.Text.Quoted

/-! Quoted text is one line, and it is read back. Whatever stands between the quotes says by itself
which glyph it was and where the next one begins, so two texts that are quoted alike are the same,
whichever characters count as printable. -/
namespace StackLang

/-- No byte below the space, so neither a newline nor a tab. -/
def Text.Visible (t : Text) : Prop := ∀ b ∈ t, 0x20 ≤ b.toNat

namespace Text

instance (t : Text) : Decidable t.Visible :=
  decidable_of_iff ((t.all fun b => 0x20 ≤ b.toNat) = true) (by simp [Visible])

theorem Visible.append {t u : Text} (first : t.Visible) (second : u.Visible) :
    (t ++ u).Visible :=
  List.forall_mem_append.2 ⟨first, second⟩

theorem Visible.cons {b : UInt8} {t : Text} (here : 0x20 ≤ b.toNat) (rest : t.Visible) :
    Text.Visible (b :: t) :=
  List.forall_mem_cons.2 ⟨here, rest⟩

theorem Visible.not_mem {t : Text} (visible : t.Visible) {b : UInt8} (low : b.toNat < 0x20) :
    b ∉ t :=
  fun mem => absurd low (Nat.not_lt.2 (visible b mem))

theorem visible_encode {c : Char} (high : 0x20 ≤ c.toNat) : (encode c).Visible := by
  intro b mem
  apply Nat.le_of_not_gt
  intro low
  have same := Glyph.mem_encode_ascii (by omega) mem
  have value := Glyph.toNat_ascii (b := b) (by omega)
  rw [same] at high
  change (Char.ofNat b.toNat).toNat = b.toNat at value
  omega

theorem visible_hex (k n : Nat) : (hex k n).Visible := by
  intro b mem
  obtain ⟨d, small, rfl⟩ := exists_digit_hex mem
  have table : ∀ d : Fin 16, 0x20 ≤ (digit d.val).toNat := by decide
  exact table ⟨d, small⟩

theorem visible_decimal (n : Int) : (decimal n).Visible := by
  intro b mem
  rcases mem_decimal mem with rfl | digit
  · decide
  · have range := isDigitByte_iff.1 digit
    omega

end Text

namespace Quoted
open Glyph Text

/-- The predicate leaves out control characters. -/
def LeavesOutControls (printable : Char → Bool) : Prop :=
  ∀ c : Char, c.toNat < 0x20 → printable c = false

theorem isPrintable_leavesOutControls : LeavesOutControls isPrintable := by
  intro c low
  simp only [isPrintable, if_pos (show c.toNat < 0x7F by omega)]
  exact decide_eq_false (by omega)

variable {printable : Char → Bool}

def meant (b : UInt8) : Char :=
  let letter := Char.ofNat b.toNat
  (((List.range 14).map Char.ofNat).find? (letter? · = some letter)).getD letter

def escaped? : Text → Option (Glyph × Text)
  | [] => none
  | 0x78 :: t =>
    let n := valueIn 16 (t.take 2)
    some (if n < 0x80 then .char (.ofNat n) else .stray (.ofNat n), t.drop 2)
  | 0x75 :: t => some (.char (.ofNat (valueIn 16 (t.take 4))), t.drop 4)
  | 0x55 :: t => some (.char (.ofNat (valueIn 16 (t.take 8))), t.drop 8)
  | b :: t => some (.char (meant b), t)

/-- Reads one glyph between double quotes. -/
def read? : Text → Option (Glyph × Text)
  | [] => none
  | 0x22 :: _ => none
  | 0x5C :: t => escaped? t
  | b :: t => (leading? b t).map fun (c, rest) => (.char c, rest)

theorem read?_encode {c : Char} (plain : ¬ (c = '"' ∨ c = '\\')) (rest : Text) :
    read? (encode c ++ rest) = some (.char c, rest) := by
  obtain ⟨b, more, encoded, -, read⟩ := reads_encode c
  rw [encoded, List.cons_append]
  have found := read rest
  -- a quote or a backslash at the front would be that character
  have other {a : UInt8} (small : a.toNat < 0x80) (differs : c ≠ Char.ofNat a.toNat) : b ≠ a := by
    rintro rfl
    rw [leading?_ascii small] at found
    exact differs (congrArg Prod.fst (Option.some.inj found)).symm
  have quote : b ≠ 0x22 := other (by decide) fun same => plain (.inl same)
  have backslash : b ≠ 0x5C := other (by decide) fun same => plain (.inr same)
  unfold read?
  split
  · contradiction
  · simp_all
  · simp_all
  · rename_i same
    obtain ⟨rfl, rfl⟩ := List.cons.inj same
    rw [found]
    rfl

theorem read?_letter {c l : Char} (found : letter? c = some l) (rest : Text) :
    read? (0x5C :: encode l ++ rest) = some (.char c, rest) := by
  have same {n : Nat} (value : c.toNat = n) : c = Char.ofNat n := by
    rw [← value, Char.ofNat_toNat]
  unfold letter? at found
  split at found
  all_goals cases found
  all_goals
    rename_i value
    rw [same value]
    rfl

theorem take_hex {k n : Nat} (some : 0 < k) (small : n < 16 ^ k) (rest : Text) :
    valueIn 16 ((hex k n ++ rest).take k) = n ∧ (hex k n ++ rest).drop k = rest := by
  have size := length_hex some small
  rw [List.take_left' size, List.drop_left' size]
  exact ⟨valueIn_hex k n, rfl⟩

theorem read?_byte {n : Nat} (small : n < 256) (rest : Text) :
    read? (utf8 "\\x" ++ hex 2 n ++ rest) =
      some (if n < 0x80 then .char (.ofNat n) else .stray (.ofNat n), rest) := by
  obtain ⟨value, behind⟩ := take_hex (by omega : 0 < 2) small rest
  have read : read? (utf8 "\\x" ++ hex 2 n ++ rest) = escaped? (0x78 :: (hex 2 n ++ rest)) := rfl
  rw [read, escaped?, value, behind]

theorem read?_short {c : Char} (small : c.toNat < 0x10000) (rest : Text) :
    read? (utf8 "\\u" ++ hex 4 c.toNat ++ rest) = some (.char c, rest) := by
  obtain ⟨value, behind⟩ := take_hex (by omega : 0 < 4) small rest
  have read : read? (utf8 "\\u" ++ hex 4 c.toNat ++ rest) =
    escaped? (0x75 :: (hex 4 c.toNat ++ rest)) := rfl
  rw [read, escaped?, value, behind, Char.ofNat_toNat]

theorem read?_long (c : Char) (rest : Text) :
    read? (utf8 "\\U" ++ hex 8 c.toNat ++ rest) = some (.char c, rest) := by
  have top := char_lt c
  obtain ⟨value, behind⟩ := take_hex (by omega : 0 < 8) (by omega : c.toNat < 16 ^ 8) rest
  have read : read? (utf8 "\\U" ++ hex 8 c.toNat ++ rest) =
    escaped? (0x55 :: (hex 8 c.toNat ++ rest)) := rfl
  rw [read, escaped?, value, behind, Char.ofNat_toNat]

theorem read?_character (printable : Char → Bool) (c : Char) (rest : Text) :
    read? (character printable '"' c ++ rest) = some (.char c, rest) := by
  unfold character
  split
  · rename_i special
    rcases special with rfl | rfl
    · rfl
    · rfl
  rename_i plain
  split
  · exact read?_encode plain rest
  split
  · rename_i found
    exact read?_letter found rest
  split
  · rename_i control
    rw [read?_byte (by omega), if_pos (by omega), Char.ofNat_toNat]
  split
  · rename_i small
    exact read?_short small rest
  · exact read?_long c rest

/-- A glyph is read back, whichever characters are printable and whatever follows. -/
theorem read?_glyph (printable : Char → Bool) {g : Glyph} (sound : g.Sound) (rest : Text) :
    read? (glyph printable '"' g ++ rest) = some (g, rest) := by
  cases g with
  | char c => exact read?_character printable c rest
  | stray b =>
    have size := b.toNat_lt
    rw [glyph, read?_byte size, if_neg (Nat.not_lt.2 sound), UInt8.ofNat_toNat]

def inside (printable : Char → Bool) (gs : List Glyph) : Text :=
  gs.flatMap (glyph printable '"') ++ [0x22]

theorem read?_inside_nil (printable : Char → Bool) (rest : Text) :
    read? (inside printable [] ++ rest) = none := rfl

theorem read?_inside_cons (printable : Char → Bool) {g : Glyph} (sound : g.Sound)
    (gs : List Glyph) (rest : Text) :
    read? (inside printable (g :: gs) ++ rest) = some (g, inside printable gs ++ rest) := by
  have split : inside printable (g :: gs) = glyph printable '"' g ++ inside printable gs := by
    rw [inside, List.flatMap_cons, List.append_assoc, inside]
  rw [split, List.append_assoc]
  exact read?_glyph printable sound (inside printable gs ++ rest)

theorem inside_append_inj {p q : Char → Bool} {gs hs : List Glyph} {r s : Text}
    (sound : ∀ g ∈ gs, g.Sound) (sound' : ∀ h ∈ hs, h.Sound)
    (same : inside p gs ++ r = inside q hs ++ s) : gs = hs ∧ r = s := by
  induction gs generalizing hs with
  | nil =>
    cases hs with
    | nil => exact ⟨rfl, (List.cons.inj same).2⟩
    | cons h hs =>
      have found := read?_inside_cons q (sound' h List.mem_cons_self) hs s
      rw [← same, read?_inside_nil] at found
      cases found
  | cons g gs ih =>
    obtain ⟨here, others⟩ := List.forall_mem_cons.1 sound
    have found := read?_inside_cons p here gs r
    rw [same] at found
    cases hs with
    | nil => cases (read?_inside_nil q s).symm.trans found
    | cons h hs =>
      obtain ⟨here', others'⟩ := List.forall_mem_cons.1 sound'
      rw [read?_inside_cons q here' hs] at found
      obtain ⟨rfl, rest⟩ := Prod.mk.inj (Option.some.inj found)
      obtain ⟨rfl, behind⟩ := ih others others' rest.symm
      exact ⟨rfl, behind⟩

theorem visible_letter {c l : Char} (found : letter? c = some l) : 0x20 ≤ l.toNat := by
  unfold letter? at found
  split at found
  all_goals cases found <;> decide

theorem visible_character (leaves : LeavesOutControls printable) (c : Char) :
    (character printable '"' c).Visible := by
  have marked (k : Nat) {mark : Text} (visible : mark.Visible) : (mark ++ hex k c.toNat).Visible :=
    visible.append (visible_hex k c.toNat)
  unfold character
  split
  · rename_i special
    rcases special with rfl | rfl
    · decide
    · decide
  split
  · rename_i shown
    apply visible_encode
    apply Nat.le_of_not_gt
    intro low
    cases shown.symm.trans (leaves c low)
  split
  · rename_i found
    exact .cons (by decide) (visible_encode (visible_letter found))
  repeat' split
  all_goals exact marked _ (by decide)

theorem visible_glyph (leaves : LeavesOutControls printable) (g : Glyph) :
    (glyph printable '"' g).Visible := by
  cases g with
  | char c => exact visible_character leaves c
  | stray b => exact Visible.append (by decide) (visible_hex 2 b.toNat)

end Quoted

namespace Text

theorem quotedBy_eq (printable : Char → Bool) (t : Text) :
    t.quotedBy printable = 0x22 :: Quoted.inside printable t.glyphs := rfl

/-- Quoted text ends by itself: what stands behind it makes no difference. -/
theorem quotedBy_append_inj {p q : Char → Bool} {t u r s : Text}
    (same : t.quotedBy p ++ r = u.quotedBy q ++ s) : t = u ∧ r = s := by
  rw [quotedBy_eq, quotedBy_eq] at same
  obtain ⟨glyphs, behind⟩ := Quoted.inside_append_inj (sound_glyphs t) (sound_glyphs u)
    (List.cons.inj same).2
  exact ⟨by rw [← glyphText_glyphs t, glyphs, glyphText_glyphs], behind⟩

theorem quotedBy_inj {p q : Char → Bool} {t u : Text} (same : t.quotedBy p = u.quotedBy q) :
    t = u :=
  (quotedBy_append_inj (congrArg (· ++ []) same)).1

theorem visible_quotedBy {printable : Char → Bool} (leaves : Quoted.LeavesOutControls printable)
    (t : Text) : (t.quotedBy printable).Visible := by
  have shown : Visible (t.glyphs.flatMap (Quoted.glyph printable '"')) := by
    intro b mem
    obtain ⟨g, -, here⟩ := List.mem_flatMap.1 mem
    exact Quoted.visible_glyph leaves g b here
  exact .cons (by decide) (shown.append (by decide))

end Text
end StackLang
