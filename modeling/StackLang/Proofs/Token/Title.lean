import Mathlib.Data.List.Nodup
import StackLang.Proofs.Text.Quoted
import StackLang.Token.Kind

/-! Titles of kinds and names of loop indices. Known or not, each has its own, and all of it can be
seen. -/
namespace StackLang

namespace Kind

theorem known_or_other (k : Kind) : k ∈ all ∨ ∃ code unknown, k = other code unknown := by
  cases k with
  | other code unknown => exact .inr ⟨code, unknown, rfl⟩
  | op o => cases o <;> exact .inl (by decide)
  | _ => exact .inl (by decide)

theorem title_inj {k l : Kind} (same : k.title = l.title) : k = l := by
  have apart {k : Kind} (known : k ∈ all) (code : UInt8) (unknown : 34 ≤ code) :
      k.title ≠ (other code unknown).title := by
    have table : ∀ k ∈ all, k.title.head? ≠ some 0x4B := by decide
    exact fun equal => table k known (congrArg List.head? equal)
  rcases known_or_other k with known | ⟨code, unknown, rfl⟩
  · rcases known_or_other l with known' | ⟨code, unknown, rfl⟩
    · have distinct : (all.map title).Nodup := by decide
      exact List.inj_on_of_nodup_map distinct known known' same
    · exact absurd same (apart known code unknown)
  · rcases known_or_other l with known' | ⟨code', unknown', rfl⟩
    · exact absurd same.symm (apart known' code unknown)
    · simp only [title, List.append_cancel_right_eq, List.append_cancel_left_eq] at same
      have codes := Int.ofNat.inj (Text.decimal_inj same)
      cases UInt8.toNat_inj.1 codes
      rfl

theorem ofCode_code (k : Kind) : ofCode k.code = k := by
  rcases known_or_other k with known | ⟨code, unknown, rfl⟩
  · have table : ∀ k ∈ all, ofCode k.code = k := by decide
    exact table k known
  · exact dif_pos unknown

/-- The kind that has a title. -/
def ofTitle? (t : Text) : Option Kind :=
  ((List.range 256).map fun code => ofCode (.ofNat code)).find? (·.title = t)

theorem ofTitle?_title (k : Kind) : ofTitle? k.title = some k := by
  have listed : k ∈ (List.range 256).map fun code => ofCode (.ofNat code) := by
    refine List.mem_map.2 ⟨k.code.toNat, List.mem_range.2 k.code.toNat_lt, ?_⟩
    rw [UInt8.ofNat_toNat, ofCode_code]
  have some : (ofTitle? k.title).isSome := List.find?_isSome.2 ⟨k, listed, decide_eq_true rfl⟩
  obtain ⟨l, found⟩ := Option.isSome_iff_exists.1 some
  have same : l.title = k.title := by simpa using List.find?_some found
  rw [found, title_inj same]

theorem visible_title (k : Kind) : k.title.Visible := by
  rcases known_or_other k with known | ⟨code, unknown, rfl⟩
  · have table : ∀ k ∈ all, k.title.Visible := by decide
    exact table k known
  · have front : (utf8 "Kind(").Visible := by decide
    exact (front.append (Text.visible_decimal _)).append (by decide)

end Kind

/-- A loop index has a letter, or its depth is written out. -/
theorem loopName_cases (depth : Int32) :
    (∃ (n : Nat) (b : UInt8), loopLetters[n]? = some b ∧ depth.toInt = n ∧ loopName depth = [b]) ∨
      loopName depth = utf8 "LoopVariable(" ++ Text.decimal depth.toInt ++ utf8 ")" := by
  unfold loopName
  split
  · rename_i b letter
    split at letter
    · rename_i least
      have positive : 0 ≤ depth.toInt := Int32.le_iff_toInt_le.1 least
      exact .inl ⟨depth.toInt.toNat, b, letter, (Int.toNat_of_nonneg positive).symm, rfl⟩
    · cases letter
  · exact .inr rfl

def loopDepth (name : Text) : Int :=
  match loopLetter? name with
  | some n => n
  | none => Text.signed ((name.drop 13).dropLast)

theorem loopDepth_loopName (depth : Int32) : loopDepth (loopName depth) = depth.toInt := by
  rcases loopName_cases depth with ⟨n, b, letter, value, name⟩ | name
  · have table : ∀ n : Fin loopLetters.length, loopLetter? [loopLetters.get n] = some n.val := by
      decide
    obtain ⟨inside, rfl⟩ := List.getElem?_eq_some_iff.1 letter
    have read : loopLetter? [loopLetters[n]] = some n := table ⟨n, inside⟩
    rw [name, loopDepth, read, value]
  · have front : (utf8 "LoopVariable(").length = 13 := by decide
    have long : loopLetter? (loopName depth) = none := by
      rw [name]
      rfl
    have closed : utf8 ")" = [0x29] := by decide
    rw [loopDepth, long, name, List.append_assoc, List.drop_left' front, closed,
      List.dropLast_concat]
    exact Text.signed_decimal _

theorem loopName_inj {d e : Int32} (same : loopName d = loopName e) : d = e := by
  apply Int32.toInt_inj.1
  rw [← loopDepth_loopName d, same, loopDepth_loopName e]

theorem visible_loopName (depth : Int32) : (loopName depth).Visible := by
  rcases loopName_cases depth with ⟨n, b, letter, -, name⟩ | name
  · have table : loopLetters.Visible := by decide
    rw [name]
    exact .cons (table b (List.mem_of_getElem? letter)) (List.forall_mem_nil _)
  · have front : (utf8 "LoopVariable(").Visible := by decide
    rw [name]
    exact (front.append (Text.visible_decimal _)).append (by decide)

end StackLang
