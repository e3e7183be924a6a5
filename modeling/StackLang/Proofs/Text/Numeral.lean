import Mathlib.Algebra.Group.Nat.Defs
import StackLang.Proofs.Text.Glyph

/-! Decimal numerals are runs of digits. In any base up to sixteen the digits give the number back,
also behind the zeros that fill a hexadecimal numeral up. -/
namespace StackLang

def isDigitByte (b : UInt8) : Bool := 48 ≤ b.toNat && b.toNat ≤ 57

theorem isDigitByte_iff {b : UInt8} : isDigitByte b = true ↔ 48 ≤ b.toNat ∧ b.toNat ≤ 57 := by
  simp [isDigitByte]

namespace Text

theorem toNat_digit {d : Nat} (small : d < 10) : (digit d).toNat = 48 + d := by
  rw [digit, if_pos small, UInt8.toNat_ofNat']
  omega

theorem isDigitByte_digit {d : Nat} (small : d < 10) : isDigitByte (digit d) = true := by
  rw [isDigitByte_iff, toNat_digit small]
  omega

theorem numeral_digits (n : Nat) : ∀ b ∈ numeral 8 n, isDigitByte b = true := by
  fun_induction numeral 8 n with
  | case1 n small =>
    intro b mem
    cases List.mem_singleton.1 mem
    exact isDigitByte_digit small
  | case2 n large ih =>
    intro b mem
    rcases List.mem_append.1 mem with mem | mem
    · exact ih b mem
    · cases List.mem_singleton.1 mem
      exact isDigitByte_digit (Nat.mod_lt n (by omega))

theorem numeral_ne_nil (n : Nat) : numeral 8 n ≠ [] := by
  rw [numeral]
  split <;> simp

end Text

namespace Glyph

theorem toNat_ascii {b : UInt8} (small : b.toNat < 0x80) : (ascii b).shown.toNat = b.toNat := by
  have valid : b.toNat.isValidChar := Or.inl (by omega)
  change (Char.ofNat b.toNat).toNat = b.toNat
  rw [Char.ofNat, dif_pos valid]
  rfl

theorem isDigit_ascii {b : UInt8} (digit : isDigitByte b = true) : (ascii b).isDigit = true := by
  have range := isDigitByte_iff.1 digit
  have value := toNat_ascii (b := b) (by omega)
  simp only [ascii, shown, isDigit, Char.isDigit] at value ⊢
  simp only [Char.toNat] at value
  simp [UInt32.le_iff_toNat_le, value, range]

end Glyph

/-- The digits of a numeral give its number back. -/
theorem digitsValue_numeral (n : Nat) : digitsValue ((Text.numeral 8 n).map Glyph.ascii) = n := by
  have shown {d : Nat} (small : d < 10) : (Glyph.ascii (Text.digit d)).shown.toNat = 48 + d := by
    rw [Glyph.toNat_ascii, Text.toNat_digit small]
    rw [Text.toNat_digit small]
    omega
  fun_induction Text.numeral 8 n with
  | case1 n small => simp [digitsValue, shown small]
  | case2 n large ih =>
    have last := shown (Nat.mod_lt n (by omega : 0 < 10))
    simp only [digitsValue, List.map_append, List.map_cons, List.map_nil, List.foldl_append,
      List.foldl_cons, List.foldl_nil] at ih ⊢
    simp only [ih, Nat.reduceAdd, last]
    omega

namespace Text

def digitValue (b : UInt8) : Nat := if b.toNat < 58 then b.toNat - 48 else b.toNat - 87

/-- The number that digits say in a base. -/
def valueIn (base : Nat) (t : Text) : Nat := t.foldl (fun n b => n * base + digitValue b) 0

theorem digitValue_digit {d : Nat} (small : d < 16) : digitValue (digit d) = d := by
  have table : ∀ d : Fin 16, digitValue (digit d.val) = d.val := by decide
  exact table ⟨d, small⟩

theorem valueIn_concat (base : Nat) (t : Text) (b : UInt8) :
    valueIn base (t ++ [b]) = valueIn base t * base + digitValue b := by
  simp only [valueIn, List.foldl_append, List.foldl_cons, List.foldl_nil]

theorem valueIn_numeral {b : Nat} (base : b + 2 ≤ 16) (n : Nat) :
    valueIn (b + 2) (numeral b n) = n := by
  fun_induction numeral b n with
  | case1 n small =>
    rw [← List.nil_append [digit n], valueIn_concat, digitValue_digit (by omega)]
    simp [valueIn]
  | case2 n large ih =>
    have last := Nat.mod_lt n (by omega : 0 < b + 2)
    rw [valueIn_concat, ih, digitValue_digit (by omega)]
    exact Nat.div_add_mod' n (b + 2)

theorem exists_digit {b n : Nat} {c : UInt8} (mem : c ∈ numeral b n) :
    ∃ d < b + 2, c = digit d := by
  fun_induction numeral b n with
  | case1 n small => exact ⟨n, small, List.mem_singleton.1 mem⟩
  | case2 n large ih =>
    rcases List.mem_append.1 mem with front | last
    · exact ih front
    · exact ⟨_, Nat.mod_lt n (by omega), List.mem_singleton.1 last⟩

theorem length_numeral {b k n : Nat} (some : 0 < k) (small : n < (b + 2) ^ k) :
    (numeral b n).length ≤ k := by
  induction k generalizing n with
  | zero => cases some
  | succ k ih =>
    rw [numeral]
    split
    · exact Nat.le_add_left 1 k
    · rename_i large
      have more : 0 < k := by
        apply Nat.pos_of_ne_zero
        rintro rfl
        exact large (by simpa using small)
      have fewer : n / (b + 2) < (b + 2) ^ k := by
        rw [Nat.div_lt_iff_lt_mul (by omega), ← Nat.pow_succ]
        exact small
      rw [List.length_append, List.length_singleton]
      exact Nat.add_le_add_right (ih more fewer) 1

theorem length_hex {k n : Nat} (some : 0 < k) (small : n < 16 ^ k) : (hex k n).length = k := by
  have fits : (numeral 14 n).length ≤ k := length_numeral some small
  rw [hex, List.length_append, List.length_replicate]
  exact Nat.sub_add_cancel fits

theorem valueIn_hex (k n : Nat) : valueIn 16 (hex k n) = n := by
  have zeros (m : Nat) : (List.replicate m 48).foldl (fun n b => n * 16 + digitValue b) 0 = 0 := by
    induction m with
    | zero => rfl
    | succ m ih => rwa [List.replicate_succ, List.foldl_cons]
  rw [hex, valueIn, List.foldl_append, zeros]
  exact valueIn_numeral (by omega) n

theorem exists_digit_hex {k n : Nat} {c : UInt8} (mem : c ∈ hex k n) : ∃ d < 16, c = digit d := by
  rcases List.mem_append.1 mem with zero | digits
  · exact ⟨0, by omega, List.eq_of_mem_replicate zero⟩
  · exact exists_digit digits

theorem mem_decimal {n : Int} {b : UInt8} (mem : b ∈ decimal n) :
    b = 0x2D ∨ isDigitByte b = true := by
  cases n with
  | ofNat n => exact .inr (numeral_digits n b mem)
  | negSucc n =>
    rcases List.mem_cons.1 mem with sign | digit
    · exact .inl sign
    · exact .inr (numeral_digits (n + 1) b digit)

/-- The number that digits say, with or without a minus before them. -/
def signed : Text → Int
  | 0x2D :: t => -(valueIn 10 t : Int)
  | t => valueIn 10 t

theorem signed_decimal (n : Int) : signed (decimal n) = n := by
  cases n with
  | ofNat n =>
    rw [decimal, signed]
    · exact congrArg Int.ofNat (valueIn_numeral (by omega) n)
    · intro t minus
      have digit := numeral_digits n 0x2D (minus ▸ List.mem_cons_self)
      cases digit
  | negSucc n =>
    rw [decimal, signed, valueIn_numeral (by omega)]
    rfl

theorem decimal_inj {n m : Int} (same : decimal n = decimal m) : n = m := by
  rw [← signed_decimal n, same, signed_decimal m]

end Text
end StackLang
