import StackLang.Proofs.Source.Line
import StackLang.Proofs.Token.Progress
import StackLang.Proofs.Tree.Extension

/-! What a located fault shows: the line it stands in, and below it a mark under the glyph that is to
blame. A carriage return that comes off the line is a space and never to blame, and stray bytes are
glyphs for the reader and in the line alike. -/
namespace StackLang

/-- As many characters as the line has before the column, and tabs under its tabs. -/
structure Indents (indent : Text) (col : Int) (line : Text) : Prop where
  size : (indent.length : Int) = min (col - 1) line.glyphs.length
  tabs : ∀ i < indent.length, ∃ g, line.glyphs[i]? = some g ∧
    indent[i]? = some (if g = .char '\t' then 0x09 else Text.space)

def HasAt (line : Text) (col : Int) (g : Glyph) : Prop :=
  ∃ k : Nat, col = k + 1 ∧ line.glyphs[k]? = some g

structure Source.PointsAt (src : Source) (f : Failure) (pos : Pos) (line : Text) : Prop where
  located : src.locate f = .located src.name pos line f
  whole : ∃ raw, IsLine src.text pos.line raw ∧ Trims raw line
  shown : ∃ indent, Indents indent pos.col line ∧
    (src.locate f).firstPlace?.map Failure.Place.context =
      some (line ++ utf8 "\n" ++ indent ++ utf8 "^")

def GlyphAt (text : Text) (pos : Pos) (g : Glyph) : Prop :=
  ∃ u v, text = u ++ v ∧ Text.Cut u v ∧ pos = .behind u ∧ v.glyphs.head? = some g

/-- The token is what a lexeme of the text stands for, at the place of the lexeme. -/
def ReadOff (text lexeme : Text) (t : Token) : Prop :=
  ∃ before rest, text = before ++ (lexeme ++ rest) ∧ Text.Cut before (lexeme ++ rest) ∧
    Token.Placed lexeme rest (.behind before) t

/-- The mark is under a glyph that the fault is about. -/
structure Source.MarksGlyph (src : Source) (e : LexFault) (line : Text) (g : Glyph) : Prop where
  points : src.PointsAt (.ofLex e) e.pos line
  under : HasAt line e.pos.col g
  blames : e.trouble.Blames g

/-- The mark is under the first glyph of the first token that no program has there; the end of a
source has no glyph. -/
structure Source.MarksToken (src : Source) (ts : List Token) (e : ParseFault) (line : Text)
    (t : Token) : Prop where
  points : src.PointsAt (.ofParse e) e.pos line
  impossible : ∃ i, FirstImpossible ts i t
  place : e.pos = t.pos
  under : t.kind ≠ .eof → ∃ lexeme g, ReadOff src.text lexeme t ∧ lexeme.glyphs.head? = some g ∧
    HasAt line e.pos.col g

theorem indents_caretIndent {col : Int} (counted : 1 ≤ col) (line : Text) :
    Indents (caretIndent col line) col line where
  size := by
    simp only [caretIndent, List.length_map, List.length_take]
    omega
  tabs := by
    intro i inside
    rw [caretIndent, List.length_map] at inside
    have there := List.getElem?_eq_getElem inside
    refine ⟨_, (List.getElem?_take_of_lt ?_).symm.trans there, ?_⟩
    · rw [List.length_take] at inside
      omega
    · rw [caretIndent, List.getElem?_map, there]
      rfl

theorem hasAt_trimmed {raw line : Text} (trims : Trims raw line) {k : Nat} {g : Glyph}
    (there : raw.glyphs[k]? = some g) (other : g.isSpace = false) : HasAt line (k + 1) g := by
  refine ⟨k, rfl, ?_⟩
  rcases trims with rfl | ⟨rfl, -⟩
  · rw [Text.glyphs_append_ascii (by decide), Text.glyphs_nil, List.getElem?_append] at there
    split at there
    · exact there
    · cases List.mem_singleton.1 (List.mem_of_getElem? there)
      exact absurd other (by decide)
  · exact there

/-- The glyph behind the place stands in the line, since the line ends before a newline only. -/
theorem glyph_in_line {part more after : Text} (inner : Text.Cut part more)
    (outer : Text.Cut more after) (ends : ∀ b ∈ after.head?, b = Text.newline) {g : Glyph}
    (head : (more ++ after).glyphs.head? = some g) (other : g.isSpace = false) :
    (part ++ more).glyphs[part.glyphs.length]? = some g := by
  rw [outer] at head
  cases glyphs : more.glyphs with
  | nil =>
    -- then the glyph is the newline that ends the line
    rw [glyphs, List.nil_append] at head
    cases after with
    | nil => simp at head
    | cons b after =>
      cases ends b rfl
      rw [Text.glyphs_cons_ascii (by decide)] at head
      cases head
      exact absurd other (by decide)
  | cons h gs =>
    rw [glyphs] at head
    cases head
    rw [inner, glyphs]
    simp

theorem Source.points_at {src : Source} {f : Failure} {site : Site} {u v : Text}
    (first : f.firstSite? = some site) (text : src.text = u ++ v) (cut : Text.Cut u v)
    (place : site.pos = .behind u) :
    ∃ line, src.PointsAt f site.pos line ∧
      ∀ g, v.glyphs.head? = some g → g.isSpace = false → HasAt line site.pos.col g := by
  obtain ⟨before, part, more, after, rfl, rfl, whole, behind, inner, outer⟩ := exists_line cut
  rw [behind] at place
  have split : src.text = before ++ ((part ++ more) ++ after) := by simp [text]
  have known : site.pos.isKnown = true := by
    rw [place]
    exact decide_eq_true (by simp only; omega)
  have column : site.pos.col = part.glyphs.length + 1 := by
    rw [place]
    exact Int.add_comm ..
  have located : src.locate f = .located src.name site.pos (src.line site.pos.line) f := by
    rw [locate, first]
    exact if_pos known
  have trims : Trims (part ++ more) (src.line site.pos.line) := by
    rw [place]
    exact trims_line whole split
  refine ⟨src.line site.pos.line, ⟨located, ?_, ?_⟩, fun g head other => ?_⟩
  · exact ⟨_, ⟨before, after, split, congrArg Pos.line place, whole⟩, trims⟩
  · refine ⟨_, indents_caretIndent (by omega) (src.line site.pos.line), ?_⟩
    rw [located]
    exact congrArg some (if_pos known)
  · rw [column]
    exact hasAt_trimmed trims (glyph_in_line inner outer whole.ends head other) other

theorem Cursor.Stands.blamed {c : Cursor} {before rest : Text} (stands : c.Stands before rest)
    {read : List Token} {e : LexFault} (failed : c.tokensAfter read = .error e) :
    ∃ g, GlyphAt (before ++ rest) e.pos g ∧ e.trouble.Blames g ∧ g.isSpace = false := by
  fun_induction tokensAfter read c generalizing before rest with
  | case1 read c fault after found =>
    cases failed
    obtain ⟨gs, glyphs, _, taken, more, culprit, rfl, head, place, blames, other⟩ := next_fault found
    -- the call goes on behind the culprit, so stand right before it instead
    obtain ⟨passed, left, rfl, -, there⟩ := stands.advance (glyphs.trans (List.append_assoc ..))
    have ahead := there.ahead
    refine ⟨culprit, ⟨before ++ passed, left, by simp, there.cut, ?_, ?_⟩, blames, other⟩
    · exact place.trans there.place
    · rw [← ahead, head]
  | case2 => cases failed
  | case3 read c t after found token shorter ih =>
    obtain ⟨taken, left, rfl, there, _⟩ := stands.next
    rw [found] at there
    rw [← List.append_assoc]
    exact ih there failed

theorem SplitsInto.places {before src : Text} {ts : List Token} (splits : SplitsInto before src ts)
    (cut : Text.Cut before src) : ∀ t ∈ ts, ∃ u v, before ++ src = u ++ v ∧ Text.Cut u v ∧
      t.pos = .behind u ∧ (t.kind ≠ .eof → ∃ lexeme rest, v = lexeme ++ rest ∧
        Token.Placed lexeme rest (.behind u) t) := by
  induction splits with
  | @ended before gap blank =>
    intro t mem
    cases List.mem_singleton.1 mem
    exact ⟨before ++ gap, [], by simp, by simp [Text.Cut], rfl, fun more => absurd rfl more⟩
  | @more before gap lexeme rest t ts blank stands later ih =>
    rw [List.append_assoc] at cut
    obtain ⟨-, there⟩ := cut.assoc (stands.cut_gap gap)
    have behind := (there.assoc stands.cut_rest).2
    refine List.forall_mem_cons.2 ⟨?_, ?_⟩
    · exact ⟨before ++ gap, lexeme ++ rest, by simp, there, rfl,
        fun _ => ⟨lexeme, rest, rfl, t, stands, rfl⟩⟩
    · have whole : before ++ gap ++ lexeme ++ rest = before ++ (gap ++ lexeme ++ rest) := by simp
      exact whole ▸ ih behind

theorem marksGlyph_of_lex {src : Source} {e : LexFault} (failed : lex src.text = .error e) :
    ∃ line g, src.MarksGlyph e line g := by
  obtain ⟨g, ⟨u, v, text, cut, place, head⟩, blames, other⟩ :=
    (Cursor.stands_ofText src.text).blamed failed
  have first : (Failure.ofLex e).firstSite? = some { stage := .lex, pos := e.pos } := rfl
  obtain ⟨line, points, found⟩ := Source.points_at first text cut place
  exact ⟨line, g, points, found g head other, blames⟩

theorem marksToken_of_parse {src : Source} {ts : List Token} {e : ParseFault}
    (lexed : lex src.text = .ok ts) (failed : parse ts = .error e) :
    ∃ line t, src.MarksToken ts e line t := by
  obtain ⟨i, t, impossible, place⟩ := firstImpossible_of_lex lexed failed
  obtain ⟨u, v, text, cut, behind, read⟩ := (splits_of_lex lexed).places (Text.cut_nil src.text) t
    (List.mem_of_getElem? impossible.there)
  have first : (Failure.ofParse e).firstSite? = some { stage := .parse, pos := e.pos } := rfl
  have whole : src.text = u ++ v := text
  obtain ⟨line, points, found⟩ := Source.points_at first whole cut (place.trans behind)
  refine ⟨line, t, points, ⟨i, impossible⟩, place, fun more => ?_⟩
  obtain ⟨lexeme, rest, rfl, s, stands, same⟩ := read more
  obtain ⟨g, gs, glyphs, joined, other, -⟩ := stands.scans
  have head : (lexeme ++ rest).glyphs.head? = some g := by
    rw [joined]
    rfl
  refine ⟨lexeme, g, ⟨u, rest, text, cut, s, stands, same⟩, ?_, found g head other⟩
  rw [glyphs]
  rfl

/-- The mark stands under what is to blame, for every fault of the reader and of the parser. -/
theorem mark_under_culprit (src : Source) :
    (∀ e, lex src.text = .error e → ∃ line g, src.MarksGlyph e line g) ∧
    ∀ ts e, lex src.text = .ok ts → parse ts = .error e → ∃ line t, src.MarksToken ts e line t :=
  ⟨fun _ failed => marksGlyph_of_lex failed, fun _ _ lexed failed => marksToken_of_parse lexed failed⟩

/-- A stray byte behind a string of two lines and a tab, and a branch that is ended without having
been opened; the lines end with carriage returns. -/
theorem mark_under_culprit_crlf :
    let src : Source := ⟨utf8 "a", utf8 "\"a\r\nb\"\t" ++ [0xFF] ++ utf8 "\r\n"⟩
    let e : LexFault := ⟨⟨2, 4⟩, .unexpected (.stray 0xFF)⟩
    let other : Source := ⟨utf8 "b", utf8 "1\r\n\tTHEN\r\n"⟩
    let ts : List Token := [{ kind := .number, pos := ⟨1, 1⟩, num := 1 },
      { kind := .thenMark, pos := ⟨2, 2⟩ }, { kind := .eof, pos := ⟨3, 1⟩ }]
    let f : ParseFault := ⟨⟨2, 2⟩, .unexpected .thenMark⟩
    lex src.text = .error e ∧ lex other.text = .ok ts ∧ parse ts = .error f ∧
      (∃ line g, src.MarksGlyph e line g) ∧ ∃ line t, other.MarksToken ts f line t := by
  intro src e other ts f
  have refused : lex src.text = .error e := by decide +kernel
  have lexed : lex other.text = .ok ts := by decide +kernel
  have failed : parse ts = .error f := rfl
  exact ⟨refused, lexed, failed, (mark_under_culprit src).1 e refused,
    (mark_under_culprit other).2 ts f lexed failed⟩

end StackLang
