import StackLang.Dump
import StackLang.Proofs.Output.Chunks
import StackLang.Proofs.Text.Lines
import StackLang.Proofs.Token.Acceptance
import StackLang.Proofs.Token.Title

/-! Token dumps. A dump has one line for each token, the end among them, with the place, the kind and
the token itself between tabs. Nothing in these three breaks the line or adds a tab, and together they
tell the token, so the tokens of a source can be read off its dump. -/
namespace StackLang

theorem Pos.visible_shown (p : Pos) : p.shown.Visible := by
  have colon : (utf8 ":").Visible := by decide
  exact ((Text.visible_decimal p.line).append colon).append (Text.visible_decimal p.col)

theorem Pos.shown_inj {p q : Pos} (same : p.shown = q.shown) : p = q := by
  have colon (n : Int) : 0x3A ∉ Text.decimal n := by
    intro mem
    rcases Text.mem_decimal mem with minus | digit
    · cases minus
    · cases digit
  have written (p : Pos) : p.shown = Text.decimal p.line ++ 0x3A :: Text.decimal p.col := by
    rw [shown, List.append_assoc]
    rfl
  rw [written, written, List.append_cons_inj_of_notMem (colon _) (colon _)] at same
  obtain ⟨line, -, col⟩ := same
  obtain ⟨l, c⟩ := p
  obtain ⟨m, d⟩ := q
  cases Text.decimal_inj line
  cases Text.decimal_inj col
  rfl

theorem IsName.visible {name : Text} (named : IsName name) : name.Visible := by
  have word (b : UInt8) (holds : isWordByte b = true) : 0x20 ≤ b.toNat := by
    simp only [isWordByte, isLetterByte, isDigitByte, Bool.or_eq_true, Bool.and_eq_true,
      decide_eq_true_eq, beq_iff_eq] at holds
    omega
  cases name with
  | nil => exact List.forall_mem_nil _
  | cons b bs =>
    have identifier := named.identifier
    simp only [isIdentifier, Bool.and_eq_true, List.all_eq_true] at identifier
    exact .cons (word b (isWordByte_of_letter identifier.1)) fun a mem => word a (identifier.2 a mem)

namespace Token

variable {printable : Char → Bool} {t u : Token}

/-- All there is to the token is shown: the fields its kind has no use for are left alone, and a name
can be seen. -/
structure Told (t : Token) : Prop where
  text : t.kind ≠ .string → t.kind ≠ .name → t.text = []
  num : t.kind ≠ .number → t.kind ≠ .index → t.num = 0
  name : t.kind = .name → t.text.Visible

theorem told_mark (k : Kind) (pos : Pos) : Told { kind := k, pos } where
  text _ _ := rfl
  num _ _ := rfl
  name _ := List.forall_mem_nil _

theorem Lexeme.told {lexeme rest : Text} (stands : Lexeme lexeme rest t) : t.Told := by
  cases stands with
  | keyword | sign => exact told_mark _ _
  | name named =>
    constructor
    · simp
    · simp
    · exact fun _ => named.visible
  | number | negative | index | string | unclosed =>
    constructor
    · simp
    · simp
    · simp

theorem Told.visible (told : t.Told) (leaves : Quoted.LeavesOutControls printable) :
    (t.shownBy printable).Visible := by
  unfold shownBy
  split
  · exact Text.visible_decimal _
  · exact Text.visible_quotedBy leaves _
  · rename_i name
    exact told.name name
  · exact visible_loopName _
  · exact Kind.visible_title _

theorem Told.text_eq (told : t.Told) (told' : u.Told) (kind : t.kind = u.kind)
    (same : t.shownBy printable = u.shownBy printable) : t.text = u.text := by
  by_cases string : t.kind = .string
  · simp only [shownBy, ← kind, string] at same
    exact Text.quotedBy_inj same
  by_cases name : t.kind = .name
  · simpa only [shownBy, ← kind, name] using same
  · rw [told.text string name, told'.text (kind ▸ string) (kind ▸ name)]

theorem Told.num_eq (told : t.Told) (told' : u.Told) (kind : t.kind = u.kind)
    (same : t.shownBy printable = u.shownBy printable) : t.num = u.num := by
  by_cases number : t.kind = .number
  · simp only [shownBy, ← kind, number] at same
    exact Int32.toInt_inj.1 (Text.decimal_inj same)
  by_cases index : t.kind = .index
  · simp only [shownBy, ← kind, index] at same
    exact loopName_inj same
  · rw [told.num number index, told'.num (kind ▸ number) (kind ▸ index)]

def tab : UInt8 := 0x09

/-- A line of a dump without its newline: three fields, with two tabs between them. -/
structure Row (printable : Char → Bool) (t : Token) (l : Text) : Prop where
  fields : l.splitOn tab = [t.pos.shown, t.kind.title, t.shownBy printable]
  tabs : l.count tab = 2

def row (printable : Char → Bool) (t : Token) : Text :=
  t.pos.shown ++ tab :: (t.kind.title ++ tab :: t.shownBy printable)

theorem lineBy_eq (printable : Char → Bool) (t : Token) :
    t.lineBy printable = t.row printable ++ [Text.newline] := by
  have tabbed : utf8 "\t" = [tab] := by decide
  have ended : utf8 "\n" = [Text.newline] := by decide
  simp only [lineBy, row, tabbed, ended, List.append_assoc, List.cons_append, List.nil_append]

theorem Told.row (told : t.Told) (leaves : Quoted.LeavesOutControls printable) :
    Row printable t (t.row printable) := by
  have pos : tab ∉ t.pos.shown := t.pos.visible_shown.not_mem (by decide)
  have title : tab ∉ t.kind.title := (Kind.visible_title _).not_mem (by decide)
  have shown : tab ∉ t.shownBy printable := (told.visible leaves).not_mem (by decide)
  constructor
  · rw [Token.row, List.splitOn_append_cons_self_of_not_mem pos,
      List.splitOn_append_cons_self_of_not_mem title, List.splitOn_eq_singleton shown]
  · rw [Token.row, List.count_append, List.count_cons_self, List.count_append,
      List.count_cons_self, List.count_eq_zero_of_not_mem pos, List.count_eq_zero_of_not_mem title,
      List.count_eq_zero_of_not_mem shown]

theorem Told.newline_not_mem (told : t.Told) (leaves : Quoted.LeavesOutControls printable) :
    Text.newline ∉ t.row printable := by
  have low : Text.newline.toNat < 0x20 := by decide
  have pos := t.pos.visible_shown.not_mem low
  have title := (Kind.visible_title t.kind).not_mem low
  have shown := (told.visible leaves).not_mem low
  have other : Text.newline ≠ tab := by decide
  simp [Token.row, pos, title, shown, other]

/-- A row tells its token. -/
theorem Row.token_eq {l : Text} (row : Row printable t l) (row' : Row printable u l) (told : t.Told)
    (told' : u.Told) : t = u := by
  have fields := row.fields.symm.trans row'.fields
  simp only [List.cons.injEq, and_true] at fields
  obtain ⟨pos, title, shown⟩ := fields
  have kind := Kind.title_inj title
  have text := told.text_eq told' kind shown
  have num := told.num_eq told' kind shown
  obtain ⟨k, p, x, n⟩ := t
  obtain ⟨k', p', x', n'⟩ := u
  cases kind
  cases Pos.shown_inj pos
  cases text
  cases num
  rfl

end Token

theorem SplitsInto.told {before src : Text} {ts : List Token} (splits : SplitsInto before src ts) :
    ∀ t ∈ ts, t.Told := by
  induction splits with
  | ended =>
    intro t mem
    cases List.mem_singleton.1 mem
    exact Token.told_mark _ _
  | more _ stands _ ih =>
    have told := stands.told
    exact List.forall_mem_cons.2 ⟨⟨told.text, told.num, told.name⟩, ih⟩

theorem SplitsInto.last {before src : Text} {ts : List Token} (splits : SplitsInto before src ts) :
    ∃ init p, ts = init ++ [{ kind := .eof, pos := p }] := by
  induction splits with
  | ended => exact ⟨[], _, rfl⟩
  | @more _ _ _ _ t _ _ _ _ ih =>
    obtain ⟨init, p, rfl⟩ := ih
    exact ⟨_ :: init, p, rfl⟩

theorem rows_of_told {printable : Char → Bool} {ts : List Token}
    (leaves : Quoted.LeavesOutControls printable) (told : ∀ t ∈ ts, t.Told) :
    Text.CutInto (ts.flatMap (Token.lineBy printable)) (ts.map (Token.row printable)) [] ∧
      List.Forall₂ (Token.Row printable) ts (ts.map (Token.row printable)) := by
  induction ts with
  | nil => exact ⟨.uncut List.not_mem_nil, .nil⟩
  | cons t ts ih =>
    obtain ⟨here, others⟩ := List.forall_mem_cons.1 told
    obtain ⟨cut, rows⟩ := ih others
    constructor
    · have first := cut.cons (here.newline_not_mem leaves)
      rwa [List.flatMap_cons, Token.lineBy_eq, List.append_assoc]
    · exact .cons (here.row leaves) rows

theorem tokens_of_rows {printable : Char → Bool} {ts us : List Token} {ls : List Text}
    (rows : List.Forall₂ (Token.Row printable) ts ls) (rows' : List.Forall₂ (Token.Row printable) us ls)
    (told : ∀ t ∈ ts, t.Told) (told' : ∀ u ∈ us, u.Told) : ts = us := by
  induction rows generalizing us with
  | nil =>
    cases rows'
    rfl
  | cons row _ ih =>
    cases rows' with
    | cons row' rest' =>
      obtain ⟨here, others⟩ := List.forall_mem_cons.1 told
      obtain ⟨here', others'⟩ := List.forall_mem_cons.1 told'
      rw [row.token_eq row' here here', ih rest' others others']

namespace Output

/-- Every device takes everything, and device `i`, which keeps it, is listed once. -/
structure Accepts (o : Output) (i : Nat) : Prop where
  all : o.TakesAll
  listed : o.leaves.count i = 1
  keeps : (o.console.device i).kind ≠ .discard

end Output

theorem writeTokensBy_chunks (printable : Char → Bool) (o : Output) (ts : List Token) :
    writeTokensBy printable o ts = o.writeChunks (ts.map (Token.lineBy printable)) := by
  induction ts generalizing o with
  | nil => rfl
  | cons t ts ih =>
    rw [List.map_cons, writeTokensBy, Output.writeChunks]
    generalize o.write (t.lineBy printable) = written
    obtain ⟨⟨taken, error⟩, p⟩ := written
    cases error with
    | none => exact ih p
    | some e => rfl

def dumped (printable : Char → Bool) (o : Output) (i : Nat) (ts : List Token) : Text :=
  ((writeTokensBy printable o ts).2.console.dataOf i).drop (o.console.dataOf i).length

theorem dumped_accepts (printable : Char → Bool) {o : Output} {i : Nat} (accepts : o.Accepts i)
    (ts : List Token) :
    (writeTokensBy printable o ts).1 = none ∧
      (writeTokensBy printable o ts).2.console.dataOf i =
        o.console.dataOf i ++ dumped printable o i ts ∧
      dumped printable o i ts = ts.flatMap (Token.lineBy printable) := by
  obtain ⟨fine, copied⟩ := Output.copied_writeChunks accepts.all (ts.map (Token.lineBy printable))
  rw [← writeTokensBy_chunks] at fine copied
  have data := copied.once accepts.listed accepts.keeps
  have taken : dumped printable o i ts = ts.flatMap (Token.lineBy printable) := by
    rw [dumped, data, List.drop_left, List.flatMap_def]
  refine ⟨fine, ?_, taken⟩
  rw [data, taken, List.flatMap_def]

/-- A dump has a line for each token of the source, and the dumps of two sources are the same only
where their tokens are. -/
theorem dump_tells_tokens {printable : Char → Bool} (leaves : Quoted.LeavesOutControls printable)
    {src src' : Text} {ts us : List Token} (lexed : lex src = .ok ts) (lexed' : lex src' = .ok us)
    {o o' : Output} {i i' : Nat} (accepts : o.Accepts i) (accepts' : o'.Accepts i') :
    (writeTokensBy printable o ts).1 = none ∧
      (writeTokensBy printable o ts).2.console.dataOf i =
        o.console.dataOf i ++ dumped printable o i ts ∧
      (∃ ls, Text.CutInto (dumped printable o i ts) ls [] ∧
        List.Forall₂ (Token.Row printable) ts ls) ∧
      (∃ init p, ts = init ++ [{ kind := .eof, pos := p }]) ∧
      (dumped printable o i ts = dumped printable o' i' us → ts = us) := by
  have splits := splits_of_lex lexed
  obtain ⟨fine, data, dump⟩ := dumped_accepts printable accepts ts
  obtain ⟨cut, rows⟩ := rows_of_told leaves splits.told
  refine ⟨fine, data, ⟨_, dump ▸ cut, rows⟩, splits.last, fun same => ?_⟩
  have told' := (splits_of_lex lexed').told
  obtain ⟨cut', rows'⟩ := rows_of_told leaves told'
  obtain ⟨-, -, dump'⟩ := dumped_accepts printable accepts' us
  rw [dump, dump'] at same
  have lines := (cut.unique (same ▸ cut')).1
  exact tokens_of_rows rows (lines ▸ rows') splits.told told'

/-- A stray byte in a string and the replacement character itself are dumped apart. -/
theorem dump_tells_stray :
    let o : Output := { leaves := [0], console := { devices := [{}] } }
    let stray := [0x22, 0x09, 0x0A, 0xFF, 0x22]
    let replaced := [0x22, 0x09, 0x0A, 0xEF, 0xBF, 0xBD, 0x22]
    ∃ ts us, lex stray = .ok ts ∧ lex replaced = .ok us ∧ o.Accepts 0 ∧
      dumped isPrintable o 0 ts ≠ dumped isPrintable o 0 us := by
  intro o stray replaced
  have lexed : lex stray = .ok [
      { kind := .string, pos := ⟨1, 1⟩, text := [0x09, 0x0A, 0xFF] },
      { kind := .eof, pos := ⟨2, 3⟩ }] := by
    decide +kernel
  have lexed' : lex replaced = .ok [
      { kind := .string, pos := ⟨1, 1⟩, text := [0x09, 0x0A, 0xEF, 0xBF, 0xBD] },
      { kind := .eof, pos := ⟨2, 3⟩ }] := by
    decide +kernel
  have accepts : o.Accepts 0 := by
    constructor
    · intro i leaf _
      cases List.mem_singleton.1 leaf
      exact List.forall_mem_nil _
    · decide
    · decide
  have tells := dump_tells_tokens Quoted.isPrintable_leavesOutControls lexed lexed' accepts accepts
  refine ⟨_, _, lexed, lexed', accepts, fun same => ?_⟩
  have texts := tells.2.2.2.2 same
  simp at texts

end StackLang
