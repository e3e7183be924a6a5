import StackLang.Proofs.Token.Cursor
import StackLang.Proofs.Token.Grammar

/-! Sources and the lexical grammar: the tokens of a source are those of its one split into gaps and
lexemes, and a source without such a split is refused. -/
namespace StackLang

namespace Token

theorem Lexeme.starts {lexeme rest : Text} {t : Token} (stands : Lexeme lexeme rest t) :
    ∃ b u, lexeme = b :: u ∧ b.toNat < 0x80 := by
  have first {text : Text} (some : text ≠ []) (small : ∀ b ∈ text, b.toNat < 0x80) :
      ∃ b u, text = b :: u ∧ b.toNat < 0x80 := by
    obtain ⟨b, u, rfl⟩ := List.exists_cons_of_ne_nil some
    exact ⟨b, u, rfl, small b List.mem_cons_self⟩
  cases stands with
  | number some all => exact first some (isDigitByte_small all)
  | negative | string | unclosed => exact ⟨_, _, rfl, by decide⟩
  | keyword reserved =>
    obtain ⟨some, small⟩ := title_small (List.mem_append_left signs reserved)
    exact first some small
  | @index _ letter _ reserved =>
    have letters : (loopLetters.all fun b => decide (b.toNat < 0x80)) = true := by decide
    have small := List.all_eq_true.1 letters letter (List.mem_of_getElem? reserved)
    exact ⟨letter, [], rfl, of_decide_eq_true small⟩
  | name named =>
    refine first ?_ (small_of_identifier named.identifier)
    rintro rfl
    cases named.identifier
  | sign listed =>
    obtain ⟨some, small⟩ := title_small (List.mem_append_right Kind.keywords listed)
    exact first some small

theorem Lexeme.not_eof {lexeme rest : Text} {t : Token} (stands : Lexeme lexeme rest t) :
    t.kind ≠ .eof := by
  have table : Kind.eof ∉ Kind.keywords ++ signs := by decide
  cases stands with
  | keyword reserved =>
    rintro rfl
    exact table (List.mem_append_left _ reserved)
  | sign listed =>
    rintro rfl
    exact table (List.mem_append_right _ listed)
  | _ => simp

theorem Lexeme.cut_gap {lexeme rest : Text} {t : Token} (stands : Lexeme lexeme rest t) (gap : Text) :
    Text.Cut gap (lexeme ++ rest) := by
  -- an ASCII byte is a glyph by itself, so none reaches from the gap into the lexeme
  obtain ⟨b, u, rfl, small⟩ := stands.starts
  exact Text.cut_ascii small gap (u ++ rest)

theorem Lexeme.cut_rest {lexeme rest : Text} {t : Token} (stands : Lexeme lexeme rest t) :
    Text.Cut lexeme rest := by
  obtain ⟨g, gs, glyphs, joined, -⟩ := stands.scans
  rw [Text.Cut, joined, glyphs]
  rfl

end Token

namespace Cursor

theorem next_blank {gap : Text} (blank : IsBlank gap) (pos : Pos) :
    next ⟨gap.glyphs, pos⟩ = (.ok { kind := .eof, pos := pos.afterAll gap.glyphs },
      ⟨[], pos.afterAll gap.glyphs⟩) := by
  rcases next_cases ⟨gap.glyphs, pos⟩ with ended | ⟨spaces, g, gs, hs, takes⟩
  · exact ended.found
  · have space : g.isSpace = true := by
      apply blank
      rw [show gap.glyphs = _ from takes.rest]
      simp
    rw [takes.other] at space
    cases space

theorem next_lexeme {gap lexeme rest : Text} {t : Token} (blank : IsBlank gap)
    (stands : Token.Lexeme lexeme rest t) (pos : Pos) :
    next ⟨(gap ++ (lexeme ++ rest)).glyphs, pos⟩ = (.ok { t with pos := pos.afterAll gap.glyphs },
      ⟨rest.glyphs, (pos.afterAll gap.glyphs).afterAll lexeme.glyphs⟩) := by
  obtain ⟨g, gs, glyphs, joined, other, scanned⟩ := stands.scans
  have skipped := skipSpace_blank (gs ++ rest.glyphs) pos blank other
  rw [stands.cut_gap gap, joined, glyphs]
  simp only [next, skipped, scanned, advance]
  simp

end Cursor

theorem SplitsInto.reads {before src : Text} {ts : List Token} (splits : SplitsInto before src ts)
    (cut : Text.Cut before src) : Cursor.Reads ⟨src.glyphs, .behind before⟩ ts := by
  induction splits with
  | ended blank =>
    rw [Pos.behind_append cut]
    exact .ended (Cursor.next_blank blank _) rfl
  | @more before gap lexeme rest t ts blank stands later ih =>
    rw [List.append_assoc] at cut ⊢
    obtain ⟨first, behind⟩ := cut.assoc (stands.cut_gap gap)
    obtain ⟨second, last⟩ := behind.assoc stands.cut_rest
    have found := Cursor.next_lexeme blank stands (.behind before)
    rw [← Pos.behind_append first, ← Pos.behind_append second] at found
    exact .more found stands.not_eof (ih last)

theorem Cursor.Reads.splits {c : Cursor} {ts : List Token} (reads : c.Reads ts) {before src : Text}
    (rest : c.rest = src.glyphs) (place : c.pos = .behind before) (cut : Text.Cut before src) :
    SplitsInto before src ts := by
  induction reads generalizing before src with
  | @ended c after t found eof =>
    rcases next_cases c with ended | ⟨blank, g, gs, hs, takes⟩
    · cases found.symm.trans ended.found
      rw [rest, place, ← Pos.behind_append cut]
      exact .ended fun g mem => ended.spaces g (rest ▸ mem)
    · have scanned := congrArg Prod.fst (takes.found.symm.trans found)
      have sound : ∀ h ∈ gs ++ hs, h.Sound := by
        have all := Text.sound_glyphs src
        rw [← rest, takes.rest] at all
        exact (List.forall_mem_cons.1 (List.forall_mem_append.1 all).2).2
      exact absurd eof (Token.scan_genuine sound (Prod.ext scanned rfl)).2
  | @more c after t ts found token later ih =>
    rcases next_cases c with ended | ⟨blank, g, gs, hs, takes⟩
    · cases found.symm.trans ended.found
      exact absurd rfl token
    · -- the glyphs are cut behind the gap and behind the lexeme, and the text with them
      obtain ⟨gap, tail, rfl, gapGlyphs, tailGlyphs⟩ := Text.glyphs_cut (rest.symm.trans takes.rest)
      obtain ⟨lexeme, behind, rfl, glyphs, behindGlyphs⟩ :=
        @Text.glyphs_cut tail (g :: gs) hs tailGlyphs
      obtain ⟨scanned, rfl⟩ := Prod.mk.inj (found.symm.trans takes.found)
      have size := takes.size
      rw [← behindGlyphs] at scanned size
      obtain ⟨u, stands, same⟩ := Token.placed_scan glyphs (Prod.ext scanned.symm size)
      obtain ⟨first, second⟩ := cut.assoc (stands.cut_gap gap)
      obtain ⟨third, last⟩ := second.assoc stands.cut_rest
      have there : c.pos.afterAll blank = .behind (before ++ gap) := by
        rw [place, ← gapGlyphs, Pos.behind_append first]
      have after : (c.pos.afterAll blank).afterAll (g :: gs) = .behind (before ++ gap ++ lexeme) := by
        rw [there, ← glyphs, Pos.behind_append third]
      rw [same, there, ← List.append_assoc]
      exact .more (fun h mem => takes.spaces h (gapGlyphs ▸ mem)) stands
        (ih behindGlyphs.symm after last)

theorem splits_of_lex {src : Text} {ts : List Token} (lexed : lex src = .ok ts) :
    SplitsInto [] src ts :=
  (Cursor.lex_eq_ok.1 lexed).splits rfl Pos.behind_nil.symm (Text.cut_nil src)

/-- Reading accepts exactly the sources of the lexical grammar, with the tokens of their lexemes. -/
theorem lex_accepts_grammar (src : Text) (ts : List Token) :
    lex src = .ok ts ↔ SplitsInto [] src ts := by
  constructor
  · exact splits_of_lex
  · intro splits
    have reads := splits.reads (Text.cut_nil src)
    rw [Pos.behind_nil] at reads
    exact Cursor.lex_eq_ok.2 reads

end StackLang
