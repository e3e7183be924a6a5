import StackLang.Text

/-! Characters and stray bytes: every text is a sequence of glyphs, and the sequence loses
nothing. A byte that starts no well-formed character stands for itself. -/
namespace StackLang

inductive Glyph where
  | char (c : Char)
  | stray (b : UInt8)
  deriving DecidableEq, Repr

namespace Glyph

def bytes : Glyph → Text
  | char c => encode c
  | stray b => [b]

/-- What a reader sees: a stray byte shows as the replacement character. -/
def shown : Glyph → Char
  | char c => c
  | stray _ => Char.ofNat 0xFFFD

def scalar? (least n : Nat) : Option Char :=
  if least ≤ n ∧ n.isValidChar then some (Char.ofNat n) else none

/-- Reads `k` continuation bytes after the payload `n`, and gives what follows them. -/
def continued? : Nat → Nat → Text → Option (Nat × Text)
  | 0, n, rest => some (n, rest)
  | _ + 1, _, [] => none
  | k + 1, n, b :: rest =>
    if 0x80 ≤ b.toNat ∧ b.toNat < 0xC0 then continued? k (n * 64 + b.toNat % 64) rest else none

/-- The character that starts with `b`, in its shortest encoding only. -/
def leading? (b : UInt8) (rest : Text) : Option (Char × Text) :=
  let n := b.toNat
  let read (k payload least : Nat) :=
    (continued? k payload rest).bind fun (n, after) => (scalar? least n).map (·, after)
  if n < 0x80 then read 0 n 0
  else if n < 0xC0 then none
  else if n < 0xE0 then read 1 (n - 0xC0) 0x80
  else if n < 0xF0 then read 2 (n - 0xE0) 0x800
  else if n < 0xF8 then read 3 (n - 0xF0) 0x10000
  else none

theorem continued?_length {k n m : Nat} {t rest : Text} (h : continued? k n t = some (m, rest)) :
    rest.length ≤ t.length := by
  fun_induction continued? k n t with
  | case1 => simp_all
  | case2 => simp at h
  | case3 k n b t cont ih => have := ih h; simp; omega
  | case4 => simp at h

theorem leading?_length {b : UInt8} {c : Char} {t rest : Text}
    (h : leading? b t = some (c, rest)) : rest.length ≤ t.length := by
  have read (k p l : Nat) :
      ((continued? k p t).bind fun (n, after) => (scalar? l n).map (·, after)) = some (c, rest) →
        rest.length ≤ t.length := by
    intro h
    obtain ⟨⟨n, after⟩, seen, found⟩ := Option.bind_eq_some_iff.1 h
    obtain ⟨_, _, same⟩ := Option.map_eq_some_iff.1 found
    cases same
    exact continued?_length seen
  simp only [leading?] at h
  split at h
  · exact read _ _ _ h
  split at h
  · cases h
  split at h
  · exact read _ _ _ h
  split at h
  · exact read _ _ _ h
  split at h
  · exact read _ _ _ h
  · cases h

end Glyph

def Text.glyphsAfter (read : List Glyph) : Text → List Glyph
  | [] => read.reverse
  | b :: rest =>
    match h : Glyph.leading? b rest with
    | some (c, rest') =>
      have := Glyph.leading?_length h
      Text.glyphsAfter (.char c :: read) rest'
    | none => Text.glyphsAfter (.stray b :: read) rest
termination_by t => t.length

def Text.glyphs (t : Text) : List Glyph := t.glyphsAfter []

def Text.isValid (t : Text) : Bool :=
  t.glyphs.all fun g => match g with
    | .char _ => true
    | .stray _ => false

end StackLang
