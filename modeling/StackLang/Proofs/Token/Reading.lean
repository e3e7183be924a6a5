import StackLang.Proofs.Token.Lexeme

/-! Reading a source token by token. What is read is genuine, and tokens that are spelled out with
spaces between them are read back as they were, up to their places. -/
namespace StackLang

namespace Cursor

/-- The tokens from a cursor on, the end among them. -/
inductive Reads : Cursor → List Token → Prop
  | ended {c after : Cursor} {t : Token} (found : c.next = (.ok t, after))
    (eof : t.kind = .eof) : Reads c [t]
  | more {c after : Cursor} {t : Token} {ts : List Token} (found : c.next = (.ok t, after))
    (token : t.kind ≠ .eof) (rest : Reads after ts) : Reads c (t :: ts)

theorem tokensAfter_eq_ok {c : Cursor} {read ts : List Token} :
    tokensAfter read c = .ok ts ↔ ∃ later, Reads c later ∧ ts = read.reverse ++ later := by
  fun_induction tokensAfter read c with
  | case1 read c e after found =>
    constructor
    · intro h
      cases h
    · rintro ⟨_, reads, _⟩
      cases reads with
      | ended also => cases found.symm.trans also
      | more also => cases found.symm.trans also
  | case2 read c t after found eof =>
    constructor
    · intro h
      cases h
      exact ⟨[t], .ended found eof, by simp⟩
    · rintro ⟨later, reads, rfl⟩
      cases reads with
      | ended also =>
        cases found.symm.trans also
        simp
      | more also token =>
        cases found.symm.trans also
        exact absurd eof token
  | case3 read c t after found token shorter ih =>
    rw [ih]
    constructor
    · rintro ⟨later, reads, rfl⟩
      exact ⟨t :: later, .more found token reads, by simp⟩
    · rintro ⟨later, reads, rfl⟩
      cases reads with
      | ended also eof =>
        cases found.symm.trans also
        exact absurd eof token
      | more also _ rest =>
        cases found.symm.trans also
        exact ⟨_, rest, by simp⟩

theorem lex_eq_ok {src : Text} {ts : List Token} : lex src = .ok ts ↔ Reads (ofText src) ts := by
  simp [lex, tokensAfter_eq_ok]

theorem next_genuine {c after : Cursor} {t : Token} (sound : ∀ g ∈ c.rest, g.Sound)
    (found : c.next = (.ok t, after)) : t.Genuine ∧ ∀ g ∈ after.rest, g.Sound := by
  have kept : ∀ g ∈ c.skipSpace.rest, g.Sound := fun g mem => sound g (List.mem_of_mem_drop mem)
  cases seen : c.skipSpace.rest with
  | nil =>
    simp only [next, seen] at found
    cases found
    exact ⟨trivial, kept⟩
  | cons g rest =>
    simp only [next, seen] at found
    obtain ⟨scanned, rfl⟩ := Prod.mk.inj found
    rw [seen] at kept
    refine ⟨(Token.scan_genuine (fun h mem => kept h (.tail _ mem)) (Prod.ext scanned rfl)).1, ?_⟩
    intro h mem
    apply kept
    rw [← seen]
    exact List.mem_of_mem_drop mem

theorem reads_genuine {c : Cursor} {ts : List Token} (reads : Reads c ts)
    (sound : ∀ g ∈ c.rest, g.Sound) : ∀ t ∈ ts, t.Genuine := by
  induction reads with
  | ended found eof =>
    intro t mem
    cases List.mem_singleton.1 mem
    exact (next_genuine sound found).1
  | more found token rest ih =>
    have step := next_genuine sound found
    exact List.forall_mem_cons.2 ⟨step.1, ih step.2⟩

end Cursor

theorem lex_genuine {src : Text} {ts : List Token} (lexed : lex src = .ok ts) :
    ∀ t ∈ ts, t.Genuine :=
  Cursor.reads_genuine (Cursor.lex_eq_ok.1 lexed) (Text.sound_glyphs src)

namespace Token

def bare (t : Token) : Token := { t with pos := {} }

def spelling (t : Token) : Text :=
  match t.kind with
  | .string => utf8 "\"" ++ t.text ++ utf8 "\""
  | _ => t.shown

/-- Written as it is spelled, the token is read back. -/
def Spelled (t : Token) : Prop := Spells t.spelling t

theorem Spells.not_eof {text : Text} {t : Token} (spells : Spells text t) : t.kind ≠ .eof := by
  obtain ⟨g, gs, glyphs, _, read⟩ := spells
  have sound := Text.sound_glyphs text
  rw [glyphs] at sound
  have scanned := read .start [] ends_nil
  rw [List.append_nil] at scanned
  exact (scan_genuine (fun h mem => sound h (.tail _ mem)) scanned).2

end Token

namespace Cursor

theorem skipSpace_blank {blank : List Glyph} {g : Glyph} (rest : List Glyph) (pos : Pos)
    (spaces : ∀ h ∈ blank, h.isSpace = true) (other : g.isSpace = false) :
    skipSpace ⟨blank ++ g :: rest, pos⟩ = ⟨g :: rest, pos.afterAll blank⟩ := by
  have taken : (blank ++ g :: rest).takeWhile Glyph.isSpace = blank := by
    rw [List.takeWhile_append_of_pos spaces, List.takeWhile_cons]
    simp [other]
  simp only [skipSpace, taken, advance, List.drop_left, List.take_left]

theorem next_spelled {text : Text} {t : Token} (spells : Token.Spells text t)
    {blank rest : List Glyph} (spaces : ∀ h ∈ blank, h.isSpace = true) (ends : Ends rest)
    (pos : Pos) : ∃ p q, next ⟨blank ++ (text.glyphs ++ rest), pos⟩ =
      (.ok { t with pos := p }, ⟨rest, q⟩) := by
  obtain ⟨g, gs, glyphs, other, read⟩ := spells
  have skipped := skipSpace_blank (gs ++ rest) pos spaces other
  refine ⟨pos.afterAll blank, (pos.afterAll blank).afterAll (g :: gs), ?_⟩
  rw [glyphs, List.cons_append]
  simp only [next, skipped, read _ _ ends, advance]
  simp

theorem next_end (blank : List Glyph) (spaces : ∀ h ∈ blank, h.isSpace = true) (pos : Pos) :
    ∃ p after, next ⟨blank, pos⟩ = (.ok { kind := .eof, pos := p }, after) := by
  have taken : blank.takeWhile Glyph.isSpace = blank := by
    have all : (blank ++ []).takeWhile Glyph.isSpace = blank ++ [].takeWhile Glyph.isSpace :=
      List.takeWhile_append_of_pos spaces
    simpa using all
  refine ⟨pos.afterAll blank, ⟨[], pos.afterAll blank⟩, ?_⟩
  simp [next, skipSpace, advance, taken]

/-- Tokens that are written out with single spaces between them are read back. -/
theorem reads_spelled {ts : List Token} (spelled : ∀ t ∈ ts, t.Spelled) :
    ∀ (blank : List Glyph) (pos : Pos), (∀ h ∈ blank, h.isSpace = true) →
      ∃ read, Reads ⟨blank ++ (Text.join [Text.space] (ts.map Token.spelling)).glyphs, pos⟩ read ∧
        read.map Token.bare = ts.map Token.bare ++ [{ kind := .eof }] := by
  induction ts with
  | nil =>
    intro blank pos spaces
    obtain ⟨p, after, found⟩ := next_end blank spaces pos
    refine ⟨[{ kind := .eof, pos := p }], ?_, rfl⟩
    simpa [Text.join] using Reads.ended found rfl
  | cons t ts ih =>
    intro blank pos spaces
    have spells : Token.Spells t.spelling t := spelled t List.mem_cons_self
    have later := ih fun u mem => spelled u (.tail _ mem)
    -- the space that ends this token is the blank before the next one
    cases ts with
    | nil =>
      obtain ⟨p, q, found⟩ := next_spelled spells spaces ends_nil pos
      obtain ⟨r, after, ended⟩ := next_end [] (by simp) q
      refine ⟨[{ t with pos := p }, { kind := .eof, pos := r }], ?_, rfl⟩
      simpa [Text.join] using Reads.more found spells.not_eof (.ended ended rfl)
    | cons u us =>
      have joined : Text.join [Text.space] ((t :: u :: us).map Token.spelling) =
          t.spelling ++ Text.space :: Text.join [Text.space] ((u :: us).map Token.spelling) := by
        simp [Text.join]
      have space : (Glyph.ascii Text.space).isSpace = true := by decide
      rw [joined, Text.glyphs_append_ascii (by decide)]
      obtain ⟨p, q, found⟩ := next_spelled spells spaces (ends_space space _) pos
      obtain ⟨read, reads, same⟩ := later [Glyph.ascii Text.space] q (by simpa using space)
      refine ⟨{ t with pos := p } :: read, .more found spells.not_eof reads, ?_⟩
      rw [List.map_cons, same]
      rfl

end Cursor

theorem lex_spelled {ts : List Token} (spelled : ∀ t ∈ ts, t.Spelled) :
    ∃ read, lex (Text.join [Text.space] (ts.map Token.spelling)) = .ok read ∧
      read.map Token.bare = ts.map Token.bare ++ [{ kind := .eof }] := by
  obtain ⟨read, reads, same⟩ := Cursor.reads_spelled spelled [] .start (by simp)
  exact ⟨read, Cursor.lex_eq_ok.2 reads, same⟩

end StackLang
