import StackLang.Proofs.Text.Glyph

/-! Where a text can be cut. A list of glyphs read off a text may be cut anywhere, and the two
halves are the glyphs of the two halves of the text. -/
namespace StackLang

namespace Glyph

theorem continued?_extend {k n m : Nat} {t rest : Text}
    (seen : continued? k n t = some (m, rest)) (v : Text) :
    continued? k n (t ++ v) = some (m, rest ++ v) := by
  fun_induction continued? k n t with
  | case1 n t =>
    cases seen
    rw [continued?]
  | case2 => cases seen
  | case3 k n b t inside ih =>
    rw [List.cons_append, continued?, if_pos inside]
    exact ih seen
  | case4 => cases seen

theorem continued?_shrink {k n m : Nat} {t rest v : Text}
    (seen : continued? k n (t ++ v) = some (m, rest ++ v)) :
    continued? k n t = some (m, rest) := by
  induction k generalizing n t with
  | zero =>
    obtain ⟨rfl, same⟩ := continued?_zero seen
    rw [List.append_cancel_right same, continued?]
  | succ k ih =>
    cases t with
    | nil =>
      -- all of the continuation would stand in `v`, and yet `v` would follow it
      obtain ⟨d, _, u, same, more⟩ := continued?_step seen
      have short := continued?_length more
      have size := congrArg List.length same
      simp only [List.nil_append, List.length_cons, List.length_append] at size short
      omega
    | cons b t =>
      rw [List.cons_append, continued?] at seen
      rw [continued?]
      split at seen
      · rename_i inside
        rw [if_pos inside]
        exact ih seen
      · cases seen

/-- How the first byte says what to read: the number of continuation bytes, the payload, and the
least character of that length. -/
theorem leading?_reads (b : UInt8) :
    (∀ t, leading? b t = none) ∨ ∃ k payload least, ∀ t, leading? b t =
      (continued? k payload t).bind fun (n, after) => (scalar? least n).map (·, after) := by
  by_cases one : b.toNat < 0x80
  · exact .inr ⟨0, b.toNat, 0, fun t => by simp [leading?, one]⟩
  by_cases none : b.toNat < 0xC0
  · exact .inl fun t => by simp [leading?, one, none]
  by_cases two : b.toNat < 0xE0
  · exact .inr ⟨1, b.toNat - 0xC0, 0x80, fun t => by simp [leading?, one, none, two]⟩
  by_cases three : b.toNat < 0xF0
  · exact .inr ⟨2, b.toNat - 0xE0, 0x800, fun t => by simp [leading?, one, none, two, three]⟩
  by_cases four : b.toNat < 0xF8
  · exact .inr ⟨3, b.toNat - 0xF0, 0x10000,
      fun t => by simp [leading?, one, none, two, three, four]⟩
  · exact .inl fun t => by simp [leading?, one, none, two, three, four]

theorem leading?_extend {b : UInt8} {c : Char} {t rest : Text}
    (found : leading? b t = some (c, rest)) (v : Text) :
    leading? b (t ++ v) = some (c, rest ++ v) := by
  rcases leading?_reads b with nothing | ⟨k, payload, least, reads⟩
  · cases (nothing t).symm.trans found
  · rw [reads] at found ⊢
    obtain ⟨⟨n, after⟩, seen, valid⟩ := Option.bind_eq_some_iff.1 found
    obtain ⟨d, scalar, same⟩ := Option.map_eq_some_iff.1 valid
    cases same
    simp [continued?_extend seen v, scalar]

theorem leading?_shrink {b : UInt8} {c : Char} {t rest v : Text}
    (found : leading? b (t ++ v) = some (c, rest ++ v)) : leading? b t = some (c, rest) := by
  rcases leading?_reads b with nothing | ⟨k, payload, least, reads⟩
  · cases (nothing (t ++ v)).symm.trans found
  · rw [reads] at found ⊢
    obtain ⟨⟨n, after⟩, seen, valid⟩ := Option.bind_eq_some_iff.1 found
    obtain ⟨d, scalar, same⟩ := Option.map_eq_some_iff.1 valid
    cases same
    simp [continued?_shrink seen, scalar]

end Glyph

namespace Text
open Glyph

/-- The glyphs of a text, cut anywhere, are those of two texts. -/
theorem glyphs_cut {t : Text} {gs hs : List Glyph} (split : t.glyphs = gs ++ hs) :
    ∃ u v, t = u ++ v ∧ u.glyphs = gs ∧ v.glyphs = hs := by
  induction t using glyph_induction generalizing gs with
  | nil =>
    rw [glyphs_nil, eq_comm, List.append_eq_nil_iff] at split
    obtain ⟨rfl, rfl⟩ := split
    exact ⟨[], [], rfl, glyphs_nil, glyphs_nil⟩
  | char b t c rest found ih =>
    cases gs with
    | nil => exact ⟨[], b :: t, rfl, glyphs_nil, split⟩
    | cons g gs =>
      rw [glyphs_char found, List.cons_append] at split
      obtain ⟨rfl, tail⟩ := List.cons.inj split
      obtain ⟨u, v, rfl, first, second⟩ := ih tail
      have written := leading?_encode found
      -- the first byte of the encoding stands before the cut with the rest of it
      obtain ⟨a, more, encoded⟩ : ∃ a more, encode c = a :: more := by
        unfold encode
        dsimp only
        repeat' split
        all_goals exact ⟨_, _, rfl⟩
      rw [encoded, List.cons_append, ← List.append_assoc] at written
      obtain ⟨rfl, rfl⟩ := List.cons.inj written
      refine ⟨b :: (more ++ u), v, rfl, ?_, second⟩
      rw [glyphs_char (leading?_shrink found), first]
  | stray b t nothing ih =>
    cases gs with
    | nil => exact ⟨[], b :: t, rfl, glyphs_nil, split⟩
    | cons g gs =>
      rw [glyphs_stray nothing, List.cons_append] at split
      obtain ⟨rfl, tail⟩ := List.cons.inj split
      obtain ⟨u, v, rfl, first, second⟩ := ih tail
      refine ⟨b :: u, v, rfl, ?_, second⟩
      have alone : leading? b u = none := by
        cases found : leading? b u with
        | none => rfl
        | some seen => cases nothing.symm.trans (leading?_extend found v)
      rw [glyphs_stray alone, first]

/-- Between the two texts no glyph is cut. -/
def Cut (u v : Text) : Prop := (u ++ v).glyphs = u.glyphs ++ v.glyphs

theorem cut_nil (v : Text) : Cut [] v := by simp [Cut]

theorem cut_ascii {b : UInt8} (small : b.toNat < 0x80) (u v : Text) : Cut u (b :: v) := by
  rw [Cut, glyphs_append_ascii small, glyphs_cons_ascii small]

theorem Cut.assoc {u v w : Text} (outer : Cut u (v ++ w)) (inner : Cut v w) :
    Cut u v ∧ Cut (u ++ v) w := by
  have split : (u ++ v ++ w).glyphs = (u.glyphs ++ v.glyphs) ++ w.glyphs := by
    rw [List.append_assoc, outer, inner, List.append_assoc]
  obtain ⟨x, y, joined, first, second⟩ := glyphs_cut split
  -- the bytes tell that the cut is the one between `u ++ v` and `w`
  have same : u ++ v = x := by
    rw [← glyphText_glyphs x, first, glyphText, List.flatMap_append]
    exact congr (congrArg _ (glyphText_glyphs u).symm) (glyphText_glyphs v).symm
  subst same
  refine ⟨first, ?_⟩
  rw [Cut, split, first]

theorem count_glyphs {b : UInt8} (small : b.toNat < 0x80) (t : Text) :
    t.glyphs.count (ascii b) = t.count b := by
  induction size : t.length using Nat.strongRecOn generalizing t with
  | ind size shorter =>
    by_cases mem : b ∈ t
    · obtain ⟨u, v, rfl⟩ := List.append_of_mem mem
      simp only [List.length_append, List.length_cons] at size
      rw [glyphs_append_ascii small, List.count_append, List.count_append, List.count_cons_self,
        List.count_cons_self, shorter u.length (by omega) u rfl, shorter v.length (by omega) v rfl]
    · have none : ascii b ∉ t.glyphs := mt (ascii_mem_glyphs small).1 mem
      rw [List.count_eq_zero_of_not_mem mem, List.count_eq_zero_of_not_mem none]

end Text
end StackLang
