import StackLang.Proofs.Token.Acceptance

/-! The seam between two sources. Behind a newline reading begins afresh, only further down: no
lexeme but an unclosed string reaches over it, and the places of tokens and faults are moved. -/
namespace StackLang

/-- The source `src`, which stands behind `before`, ends inside a string: behind the quote that opens
the string there is no other. -/
def EndsInString (before src : Text) (ts : List Token) : Prop :=
  ∃ u text, src = u ++ 0x22 :: text ∧ 0x22 ∉ text ∧
    { kind := .string, pos := .behind (before ++ u), text } ∈ ts

def Token.down (t : Token) (lines : Nat) : Token := { t with pos := t.pos.down lines }

def LexFault.down (e : LexFault) (lines : Nat) : LexFault := { e with pos := e.pos.down lines }

namespace Token

/-- The same token or fault, further down. -/
def lower (lines : Nat) : Except LexFault Token → Except LexFault Token
  | .ok t => .ok (t.down lines)
  | .error e => .error (e.down lines)

def Found.down (found : Found) (lines : Nat) : Found := (lower lines found.1, found.2)

variable (pos : Pos) (lines : Nat)

theorem number_down (negative : Bool) (digits lexeme : List Glyph) :
    number (pos.down lines) negative digits lexeme =
      lower lines (number pos negative digits lexeme) := by
  simp only [number, apply_ite (lower lines)]
  rfl

theorem word_down (text : Text) : word (pos.down lines) text = (word pos text).down lines := by
  unfold word
  split <;> rfl

theorem scanWord_down (g : Glyph) (rest : List Glyph) :
    scanWord (pos.down lines) g rest = (scanWord pos g rest).down lines := by
  simp only [scanWord, word_down, Pos.afterAll_down]
  split
  · split <;> rfl
  · rfl

theorem scanMark_down (g : Glyph) (rest : List Glyph) :
    scanMark (pos.down lines) g rest = (scanMark pos g rest).down lines := by
  unfold scanMark
  split
  all_goals first
    | rfl
    | (dsimp only; split <;> rfl)

theorem scan_down (g : Glyph) (rest : List Glyph) :
    scan (pos.down lines) g rest = (scan pos g rest).down lines := by
  simp only [scan, number_down, scanWord_down, scanMark_down]
  repeat' split
  all_goals rfl

end Token

namespace Cursor

def down (c : Cursor) (lines : Nat) : Cursor := { c with pos := c.pos.down lines }

theorem next_down (c : Cursor) (lines : Nat) :
    (c.down lines).next = (Token.lower lines c.next.1, c.next.2.down lines) := by
  have advanced (d : Cursor) (n : Nat) : (d.down lines).advance n = (d.advance n).down lines := by
    simp only [advance, down, Pos.afterAll_down]
  have skipped : (c.down lines).skipSpace = c.skipSpace.down lines := advanced c _
  simp only [next, skipped]
  obtain ⟨rest, pos⟩ := c.skipSpace
  cases rest with
  | nil => rfl
  | cons g rest =>
    simp only [down, Token.scan_down]
    exact Prod.ext rfl (advanced ⟨g :: rest, pos⟩ _)

theorem tokensAfter_error {c after : Cursor} {e : LexFault} (found : c.next = (.error e, after))
    (read : List Token) : tokensAfter read c = .error e := by
  rw [tokensAfter]
  split
  · rename_i also
    cases found.symm.trans also
    rfl
  · rename_i also
    cases found.symm.trans also

theorem tokensAfter_eof {c after : Cursor} {t : Token} (found : c.next = (.ok t, after))
    (eof : t.kind = .eof) (read : List Token) : tokensAfter read c = .ok (t :: read).reverse := by
  rw [tokensAfter]
  split
  · rename_i also
    cases found.symm.trans also
  · rename_i also
    cases found.symm.trans also
    rw [dif_pos eof]

theorem tokensAfter_more {c after : Cursor} {t : Token} (found : c.next = (.ok t, after))
    (token : t.kind ≠ .eof) (read : List Token) :
    tokensAfter read c = tokensAfter (t :: read) after := by
  rw [tokensAfter]
  split
  · rename_i also
    cases found.symm.trans also
  · rename_i also
    cases found.symm.trans also
    rw [dif_neg token]

theorem tokensAfter_blank {blank : List Glyph} (spaces : ∀ g ∈ blank, g.isSpace = true)
    (read : List Token) (rest : List Glyph) (pos : Pos) :
    tokensAfter read ⟨blank ++ rest, pos⟩ = tokensAfter read ⟨rest, pos.afterAll blank⟩ := by
  have same : next ⟨blank ++ rest, pos⟩ = next ⟨rest, pos.afterAll blank⟩ := by
    simp only [next, skipSpace_eq, List.takeWhile_append_of_pos spaces,
      List.dropWhile_append_of_pos spaces, Pos.afterAll_append]
  cases found : next ⟨rest, pos.afterAll blank⟩ with
  | mk result after =>
    cases result with
    | error e => rw [tokensAfter_error found, tokensAfter_error (same.trans found)]
    | ok t =>
      by_cases eof : t.kind = .eof
      · rw [tokensAfter_eof found eof, tokensAfter_eof (same.trans found) eof]
      · rw [tokensAfter_more found eof, tokensAfter_more (same.trans found) eof]

theorem tokensAfter_down (earlier : List Token) (lines : Nat) (read : List Token) (c : Cursor) :
    tokensAfter (read.map (·.down lines) ++ earlier) (c.down lines) =
      match tokensAfter read c with
      | .ok ts => .ok (earlier.reverse ++ ts.map (·.down lines))
      | .error e => .error (e.down lines) := by
  fun_induction tokensAfter read c with
  | case1 read c e after found =>
    have lower := next_down c lines
    rw [found] at lower
    rw [tokensAfter_error lower]
  | case2 read c t after found eof =>
    have lower := next_down c lines
    rw [found] at lower
    rw [tokensAfter_eof lower eof]
    simp
  | case3 read c t after found token shorter ih =>
    have lower := next_down c lines
    rw [found] at lower
    rw [tokensAfter_more lower token]
    exact ih

end Cursor

namespace Token

theorem Lexeme.before_newline {lexeme rest : Text} {t : Token} (stands : Lexeme lexeme rest t)
    (closed : ∀ text, lexeme = 0x22 :: text → rest = [] → t = { kind := .string, text } → 0x22 ∈ text)
    (v : Text) : Lexeme lexeme (rest ++ Text.newline :: v) t := by
  have ends {P : Glyph → Prop} (here : ∀ g ∈ rest.glyphs.head?, P g) (newline : P (.char '\n')) :
      ∀ g ∈ (rest ++ Text.newline :: v).glyphs.head?, P g := by
    rw [Text.glyphs_append_ascii (by decide)]
    cases glyphs : rest.glyphs with
    | nil =>
      rintro g ⟨⟩
      exact newline
    | cons h hs =>
      rw [glyphs] at here
      exact here
  cases stands with
  | number some all same next => exact .number some all same (ends next rfl)
  | negative some all same next => exact .negative some all same (ends next rfl)
  | keyword reserved next => exact .keyword reserved (ends next rfl)
  | index reserved next => exact .index reserved (ends next rfl)
  | name named next => exact .name named (ends next rfl)
  | string rest unquoted => exact .string _ unquoted
  | unclosed unquoted => exact absurd (closed _ rfl rfl rfl) unquoted
  | @sign k rest listed next =>
    have apart : ∀ k ∈ signs, glues k (.char '\n') = false := by decide
    exact .sign listed (ends next (apart k listed))

end Token

theorem SplitsInto.ne_nil {before src : Text} {ts : List Token} (splits : SplitsInto before src ts) :
    ts ≠ [] := by
  cases splits <;> simp

theorem SplitsInto.reads_on {before src : Text} {ts : List Token} (splits : SplitsInto before src ts)
    (cut : Text.Cut before src) (closed : ¬ EndsInString before src ts) (v : Text) (read : List Token) :
    Cursor.tokensAfter read ⟨(src ++ Text.newline :: v).glyphs, .behind before⟩ =
      Cursor.tokensAfter (ts.dropLast.reverse ++ read)
        ⟨v.glyphs, (Pos.behind (before ++ src)).after (.char '\n')⟩ := by
  induction splits generalizing read with
  | @ended before gap blank =>
    have spaces : ∀ g ∈ gap.glyphs ++ [.char '\n'], g.isSpace = true :=
      List.forall_mem_append.2 ⟨blank, by decide⟩
    have glyphs : (gap ++ Text.newline :: v).glyphs = gap.glyphs ++ [.char '\n'] ++ v.glyphs := by
      rw [Text.glyphs_append_ascii (by decide), List.append_assoc]
      rfl
    rw [glyphs, Cursor.tokensAfter_blank spaces, Pos.afterAll_append, ← Pos.behind_append cut]
    rfl
  | @more before gap lexeme rest t ts blank stands later ih =>
    -- a newline ends every lexeme that the end of the source ends, an open string apart
    have here : Token.Lexeme lexeme (rest ++ Text.newline :: v) t := by
      refine stands.before_newline (fun text opened ended string => ?_) v
      subst opened ended string
      by_contra unquoted
      exact closed ⟨gap, text, by simp, unquoted, List.mem_cons_self⟩
    have there : ¬ EndsInString (before ++ gap ++ lexeme) rest ts := by
      rintro ⟨u, text, rfl, unquoted, mem⟩
      refine closed ⟨gap ++ lexeme ++ u, text, by simp, unquoted, List.mem_cons_of_mem _ ?_⟩
      simpa using mem
    rw [List.append_assoc] at cut
    obtain ⟨first, behind⟩ := cut.assoc (stands.cut_gap gap)
    obtain ⟨second, last⟩ := behind.assoc stands.cut_rest
    have found := Cursor.next_lexeme blank here (.behind before)
    rw [← Pos.behind_append first, ← Pos.behind_append second] at found
    rw [List.append_assoc, List.append_assoc, Cursor.tokensAfter_more found stands.not_eof,
      ih last there, List.dropLast_cons_of_ne_nil later.ne_nil]
    simp

theorem lex_newline {a : Text} {ts : List Token} (lexed : lex a = .ok ts)
    (closed : ¬ EndsInString [] a ts) (b : Text) : lex (a ++ Text.newline :: b) =
      match lex b with
      | .ok us => .ok (ts.dropLast ++ us.map (·.down (1 + a.count Text.newline)))
      | .error e => .error (e.down (1 + a.count Text.newline)) := by
  have joined := (splits_of_lex lexed).reads_on (Text.cut_nil a) closed b []
  rw [Pos.behind_nil, List.nil_append, Pos.behind_newline, List.append_nil] at joined
  have lower := Cursor.tokensAfter_down ts.dropLast.reverse (1 + a.count Text.newline) []
    (Cursor.ofText b)
  rw [List.reverse_reverse] at lower
  exact joined.trans lower

end StackLang
