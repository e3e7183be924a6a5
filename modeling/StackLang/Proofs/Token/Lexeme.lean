import StackLang.Proofs.Text.Numeral

/-! How single tokens are spelled. A spelling stands for its token wherever a space or the end
follows it, and what is read anywhere keeps the rules for names, loop indices and strings. -/
namespace StackLang

def isLetterByte (b : UInt8) : Bool :=
  (65 ≤ b.toNat && b.toNat ≤ 90) || (97 ≤ b.toNat && b.toNat ≤ 122)

def isWordByte (b : UInt8) : Bool := isLetterByte b || isDigitByte b || b.toNat == 95

def isIdentifier : Text → Bool
  | [] => false
  | b :: rest => isLetterByte b && rest.all isWordByte

/-- What may name a word or a variable. -/
structure IsName (name : Text) : Prop where
  identifier : isIdentifier name = true
  free : isReserved name = false

instance (name : Text) : Decidable (IsName name) :=
  decidable_of_iff (isIdentifier name = true ∧ isReserved name = false)
    ⟨fun h => ⟨h.1, h.2⟩, fun h => ⟨h.identifier, h.free⟩⟩

theorem isWordByte_small {b : UInt8} (word : isWordByte b = true) : b.toNat < 0x80 := by
  simp only [isWordByte, isLetterByte, isDigitByte, Bool.or_eq_true, Bool.and_eq_true,
    decide_eq_true_eq, beq_iff_eq] at word
  omega

theorem isWordByte_of_letter {b : UInt8} (letter : isLetterByte b = true) :
    isWordByte b = true := by
  simp [isWordByte, letter]

namespace Glyph

/-- A class of characters that are all ASCII is a class of bytes. -/
theorem class_iff {p : Glyph → Bool} {q : UInt8 → Bool} (strays : ∀ b, p (.stray b) = false)
    (low : ∀ c, p (.char c) = true → c.toNat < 0x80) (small : ∀ b, q b = true → b.toNat < 0x80)
    (agree : ∀ c (b : UInt8), c.toNat = b.toNat → p (.char c) = q b) (g : Glyph) :
    p g = true ↔ ∃ b, q b = true ∧ g = ascii b := by
  constructor
  · intro holds
    cases g with
    | char c =>
      have value : (UInt8.ofNat c.toNat).toNat = c.toNat := by
        have := low c holds
        rw [UInt8.toNat_ofNat']
        omega
      refine ⟨.ofNat c.toNat, (agree c _ value.symm).symm.trans holds, ?_⟩
      rw [ascii, value, Char.ofNat_toNat]
    | stray b => rw [strays b] at holds; cases holds
  · rintro ⟨b, holds, rfl⟩
    exact (agree _ b (toNat_ascii (small b holds))).trans holds

theorem isDigit_iff (g : Glyph) : g.isDigit = true ↔ ∃ b, isDigitByte b = true ∧ g = ascii b := by
  have code (c : Char) : (char c).isDigit = (decide (48 ≤ c.toNat) && decide (c.toNat ≤ 57)) := rfl
  refine class_iff (fun _ => rfl) ?_ ?_ ?_ g
  · intro c holds
    simp only [code, Bool.and_eq_true, decide_eq_true_eq] at holds
    omega
  · intro b holds
    have := isDigitByte_iff.1 holds
    omega
  · intro c b same
    rw [code, same]
    rfl

theorem isLetter_iff (g : Glyph) :
    g.isLetter = true ↔ ∃ b, isLetterByte b = true ∧ g = ascii b := by
  have upper (c : Char) : c.isUpper = (decide (65 ≤ c.toNat) && decide (c.toNat ≤ 90)) :=
    Bool.decide_and (65 ≤ c.toNat) (c.toNat ≤ 90)
  have code (c : Char) : (char c).isLetter =
      ((decide (65 ≤ c.toNat) && decide (c.toNat ≤ 90)) ||
        (decide (97 ≤ c.toNat) && decide (c.toNat ≤ 122))) :=
    congrArg (· || c.isLower) (upper c)
  refine class_iff (fun _ => rfl) ?_ ?_ ?_ g
  · intro c holds
    simp only [code, Bool.or_eq_true, Bool.and_eq_true, decide_eq_true_eq] at holds
    omega
  · exact fun b letter => isWordByte_small (isWordByte_of_letter letter)
  · intro c b same
    rw [code, same]
    rfl

theorem isWordPart_iff (g : Glyph) :
    g.isWordPart = true ↔ ∃ b, isWordByte b = true ∧ g = ascii b := by
  have underscore : g = char '_' ↔ ∃ b : UInt8, b.toNat = 95 ∧ g = ascii b :=
    ⟨fun same => ⟨95, rfl, same⟩, fun ⟨b, value, same⟩ => by rw [same, ascii, value]⟩
  simp only [isWordPart, isWordByte, Bool.or_eq_true, beq_iff_eq, isLetter_iff, isDigit_iff,
    underscore, or_and_right, exists_or]

theorem ascii_inj {a b : UInt8} (smallA : a.toNat < 0x80) (smallB : b.toNat < 0x80)
    (same : ascii a = ascii b) : a = b := by
  apply UInt8.toNat_inj.1
  rw [← toNat_ascii smallA, ← toNat_ascii smallB, same]

theorem isSpace_of_wordPart {g : Glyph} (part : g.isWordPart = true) : g.isSpace = false := by
  obtain ⟨b, word, rfl⟩ := (isWordPart_iff g).1 part
  have value := toNat_ascii (isWordByte_small word)
  simp only [isWordByte, isLetterByte, isDigitByte, Bool.or_eq_true, Bool.and_eq_true,
    decide_eq_true_eq, beq_iff_eq] at word
  simp only [ascii, shown] at value
  simp only [ascii, isSpace, value, Bool.or_eq_false_iff, Bool.and_eq_false_iff,
    decide_eq_false_iff_not, beq_eq_false_iff_ne]
  omega

theorem isWordPart_of_digit {g : Glyph} (digit : g.isDigit = true) : g.isWordPart = true := by
  simp [isWordPart, digit]

theorem isWordPart_of_letter {g : Glyph} (letter : g.isLetter = true) : g.isWordPart = true := by
  simp [isWordPart, letter]

theorem not_digit_of_letter {g : Glyph} (letter : g.isLetter = true) : g.isDigit = false := by
  obtain ⟨a, isLetter, rfl⟩ := (isLetter_iff g).1 letter
  apply Bool.eq_false_iff.2
  intro digit
  obtain ⟨b, isDigit, same⟩ := (isDigit_iff _).1 digit
  have range := isDigitByte_iff.1 isDigit
  cases ascii_inj (isWordByte_small (isWordByte_of_letter isLetter)) (by omega) same
  simp only [isLetterByte, Bool.or_eq_true, Bool.and_eq_true, decide_eq_true_eq] at isLetter
  omega

theorem exists_bytes {q : UInt8 → Bool} {gs : List Glyph}
    (all : ∀ g ∈ gs, ∃ b, q b = true ∧ g = ascii b) :
    ∃ bs : Text, gs = bs.map ascii ∧ ∀ b ∈ bs, q b = true := by
  induction gs with
  | nil => exact ⟨[], rfl, by simp⟩
  | cons g gs ih =>
    obtain ⟨b, holds, rfl⟩ := all g List.mem_cons_self
    obtain ⟨bs, rfl, rest⟩ := ih fun h mem => all h (.tail _ mem)
    exact ⟨b :: bs, rfl, List.forall_mem_cons.2 ⟨holds, rest⟩⟩

theorem glyphText_map_ascii {bs : Text} (small : ∀ b ∈ bs, b.toNat < 0x80) :
    glyphText (bs.map ascii) = bs := by
  rw [← Text.glyphs_ascii small, Text.glyphText_glyphs]

end Glyph

def Ends (rest : List Glyph) : Prop := ∀ g ∈ rest.head?, g.isSpace = true

theorem ends_nil : Ends [] := by simp [Ends]

theorem ends_space {g : Glyph} (space : g.isSpace = true) (rest : List Glyph) :
    Ends (g :: rest) := by
  simpa [Ends] using space

theorem takeWhile_ends {p : Glyph → Bool} (apart : ∀ g, p g = true → g.isSpace = false)
    {gs rest : List Glyph} (all : ∀ g ∈ gs, p g = true) (ends : Ends rest) :
    (gs ++ rest).takeWhile p = gs := by
  have nothing : rest.takeWhile p = [] := by
    cases rest with
    | nil => rfl
    | cons g rest =>
      have space : g.isSpace = true := ends g rfl
      have no : ¬ p g = true := by
        intro holds
        rw [apart g holds] at space
        cases space
      rw [List.takeWhile_cons, if_neg no]
  rw [List.takeWhile_append_of_pos all, nothing, List.append_nil]

namespace Token
open Glyph

/-- The text is one lexeme before a space or the end, and stands for the token there. -/
def Spells (text : Text) (t : Token) : Prop :=
  ∃ g gs, text.glyphs = g :: gs ∧ g.isSpace = false ∧
    ∀ pos rest, Ends rest → scan pos g (gs ++ rest) = (.ok { t with pos }, gs.length)

theorem scan_letter {g : Glyph} (letter : g.isLetter = true) (pos : Pos) (rest : List Glyph) :
    scan pos g rest = scanWord pos g rest := by
  have minus : g ≠ char '-' := by
    rintro rfl
    cases letter
  simp [scan, not_digit_of_letter letter, minus, letter]

theorem identifier_small {b : UInt8} {bs : Text} (identifier : isIdentifier (b :: bs) = true) :
    ∀ a ∈ b :: bs, isWordByte a = true := by
  simp only [isIdentifier, Bool.and_eq_true, List.all_eq_true] at identifier
  exact List.forall_mem_cons.2 ⟨isWordByte_of_letter identifier.1, identifier.2⟩

/-- An identifier is read whole, and the reserved tables say what it is. -/
theorem spells_word {text : Text} (identifier : isIdentifier text = true) {t : Token}
    (same : ∀ pos, word pos text = { t with pos }) : Spells text t := by
  cases text with
  | nil => cases identifier
  | cons b bs =>
    have parts := identifier_small identifier
    have small (a : UInt8) (mem : a ∈ b :: bs) := isWordByte_small (parts a mem)
    simp only [isIdentifier, Bool.and_eq_true, List.all_eq_true] at identifier
    have letter : (ascii b).isLetter = true := (isLetter_iff _).2 ⟨b, identifier.1, rfl⟩
    have inside : ∀ g ∈ bs.map ascii, g.isWordPart = true := by
      intro g mem
      obtain ⟨a, held, rfl⟩ := List.mem_map.1 mem
      exact (isWordPart_iff _).2 ⟨a, identifier.2 a held, rfl⟩
    refine ⟨ascii b, bs.map ascii, Text.glyphs_ascii small,
      isSpace_of_wordPart (isWordPart_of_letter letter), fun pos rest ends => ?_⟩
    have read : glyphText (ascii b :: bs.map ascii) = b :: bs := glyphText_map_ascii small
    rw [scan_letter letter, scanWord, takeWhile_ends (fun _ => isSpace_of_wordPart) inside ends]
    simp only [List.drop_left, read, same]
    cases rest with
    | nil => rfl
    | cons g rest =>
      have space : g.isSpace = true := ends g rfl
      simp [space]

theorem word_name {name : Text} (free : isReserved name = false) (pos : Pos) :
    word pos name = { kind := .name, pos, text := name } := by
  simp only [isReserved, Bool.or_eq_false_iff, Option.isSome_eq_false_iff,
    Option.isNone_iff_eq_none] at free
  simp [word, free]

theorem spells_name {name : Text} (named : IsName name) :
    Spells name { kind := .name, text := name } :=
  spells_word named.identifier (word_name named.free)

theorem spells_keyword {k : Kind} (keyword : k ∈ Kind.keywords) :
    Spells k.title { kind := k } := by
  have table : ∀ k ∈ Kind.keywords,
      isIdentifier k.title = true ∧ Kind.keyword? k.title = some k := by decide
  have ⟨identifier, found⟩ := table k keyword
  refine spells_word identifier fun pos => ?_
  simp [word, found]

theorem spells_index {depth : Int} (least : 0 ≤ depth) (most : depth ≤ 4) :
    Spells (loopName (.ofInt depth)) { kind := .index, num := .ofInt depth } := by
  have table : ∀ d : Fin 5, isIdentifier (loopName (.ofInt d.val)) = true ∧
      Kind.keyword? (loopName (.ofInt d.val)) = none ∧
      loopLetter? (loopName (.ofInt d.val)) = some d.val ∧ Int32.ofNat d.val = .ofInt d.val := by
    decide
  obtain ⟨d, rfl⟩ := Int.eq_ofNat_of_zero_le least
  have ⟨identifier, free, found, num⟩ := table ⟨d, by omega⟩
  refine spells_word identifier fun pos => ?_
  simp only [word, free, found, num]

theorem takeWhile_digits {ds : Text} (digits : ∀ d ∈ ds, isDigitByte d = true)
    {rest : List Glyph} (ends : Ends rest) :
    (ds.map ascii ++ rest).takeWhile isDigit = ds.map ascii := by
  refine takeWhile_ends (fun g digit => isSpace_of_wordPart (isWordPart_of_digit digit)) ?_ ends
  intro g mem
  obtain ⟨d, held, rfl⟩ := List.mem_map.1 mem
  exact isDigit_ascii (digits d held)

theorem number_toInt {pos : Pos} {negative : Bool} {digits lexeme : List Glyph} {value : Int32}
    (same : (if negative then -(digitsValue digits : Int) else digitsValue digits) =
      value.toInt) :
    number pos negative digits lexeme = .ok { kind := .number, pos, num := value } := by
  have low := value.le_toInt
  have high := value.toInt_lt
  have fits : -2147483648 ≤ value.toInt ∧ value.toInt ≤ 2147483647 := by omega
  simp only [number, same, fits, and_self, if_true, Int32.ofInt_toInt]

theorem spells_number (value : Int32) :
    Spells (Text.decimal value.toInt) { kind := .number, num := value } := by
  have small {n : Nat} (b : UInt8) (mem : b ∈ Text.numeral 8 n) : b.toNat < 0x80 := by
    have := isDigitByte_iff.1 (Text.numeral_digits n b mem)
    omega
  cases sign : value.toInt with
  | ofNat n =>
    cases numeral : Text.numeral 8 n with
    | nil => exact absurd numeral (Text.numeral_ne_nil n)
    | cons d ds =>
      have digits := numeral ▸ Text.numeral_digits n
      have first : (ascii d).isDigit = true := isDigit_ascii (digits d List.mem_cons_self)
      have number : digitsValue (ascii d :: ds.map ascii) = n := by
        rw [← List.map_cons, ← numeral, digitsValue_numeral]
      refine ⟨ascii d, ds.map ascii, ?_, isSpace_of_wordPart (isWordPart_of_digit first),
        fun pos rest ends => ?_⟩
      · rw [Text.decimal, numeral, Text.glyphs_ascii (numeral ▸ small)]
        rfl
      · have more := takeWhile_digits (fun a mem => digits a (.tail _ mem)) ends
        have whole : (if false then -(digitsValue (ascii d :: ds.map ascii) : Int)
            else digitsValue (ascii d :: ds.map ascii)) = value.toInt := by
          rw [number, sign]
          rfl
        simp only [scan, more, first, if_true]
        rw [number_toInt whole]
  | negSucc n =>
    have digits := Text.numeral_digits (n + 1)
    have some : (Text.numeral 8 (n + 1)).map ascii ≠ [] := by
      simpa using Text.numeral_ne_nil (n + 1)
    refine ⟨ascii 0x2D, (Text.numeral 8 (n + 1)).map ascii, ?_, by decide,
      fun pos rest ends => ?_⟩
    · rw [Text.decimal, Text.glyphs_cons_ascii (by decide), Text.glyphs_ascii small]
    · have sub : ascii 0x2D = char '-' := by decide
      have minus : (char '-').isDigit = false := by decide
      have number : (if true then -(digitsValue ((Text.numeral 8 (n + 1)).map ascii) : Int)
          else digitsValue ((Text.numeral 8 (n + 1)).map ascii)) = value.toInt := by
        rw [digitsValue_numeral, sign]
        rfl
      simp only [scan, takeWhile_digits digits ends, sub, minus, some, ne_eq, not_false_eq_true,
        and_self, Bool.false_eq_true, if_true, if_false]
      rw [number_toInt number]

theorem quote_not_mem {text : Text} (unquoted : 0x22 ∉ text) :
    ∀ g ∈ text.glyphs, decide (g ≠ char '"') = true := by
  intro g mem
  apply decide_eq_true
  rintro rfl
  exact unquoted ((Text.ascii_mem_glyphs (by decide)).1 mem)

theorem spells_string {text : Text} (unquoted : 0x22 ∉ text) :
    Spells (utf8 "\"" ++ text ++ utf8 "\"") { kind := .string, text } := by
  have quote : utf8 "\"" = [0x22] := by decide
  have glyphs : (utf8 "\"" ++ text ++ utf8 "\"").glyphs =
      char '"' :: (text.glyphs ++ [char '"']) := by
    rw [quote, List.singleton_append, List.cons_append, Text.glyphs_cons_ascii (by decide),
      Text.glyphs_append_ascii (by decide), Text.glyphs_nil]
    rfl
  refine ⟨char '"', text.glyphs ++ [char '"'], glyphs, by decide, fun pos rest _ => ?_⟩
  have digits : (text.glyphs ++ char '"' :: rest).takeWhile (· ≠ char '"') = text.glyphs := by
    rw [List.takeWhile_append_of_pos (quote_not_mem unquoted)]
    simp
  have start : (char '"').isDigit = false ∧ char '"' ≠ char '-' ∧ (char '"').isLetter = false := by
    decide
  simp only [scan, scanString, List.append_assoc, List.singleton_append, digits, start, false_and,
    if_false, if_true]
  simp

theorem scan_mark {g : Glyph} (digit : g.isDigit = false) (letter : g.isLetter = false)
    (quote : g ≠ char '"') (pos : Pos) {rest : List Glyph} (alone : rest.takeWhile isDigit = []) :
    scan pos g rest = scanMark pos g rest := by
  simp only [scan, digit, letter, quote, alone, ne_eq, not_true_eq_false, and_false,
    Bool.false_eq_true, if_false]

def isSign (g : Glyph) (gs : List Glyph) : Bool :=
  !g.isSpace && !g.isDigit && !g.isLetter && g != char '"' && (gs.takeWhile isDigit).isEmpty

theorem spells_sign {k : Kind} {b : UInt8} {bs : Text} (title : k.title = b :: bs)
    (small : ((b :: bs).all fun a => a.toNat < 0x80) = true)
    (sign : isSign (ascii b) (bs.map ascii) = true)
    (read : ∀ pos rest, Ends rest →
      scanMark pos (ascii b) (bs.map ascii ++ rest) = (.ok { kind := k, pos }, bs.length)) :
    Spells k.title { kind := k } := by
  simp only [isSign, Bool.and_eq_true, Bool.not_eq_true', bne_iff_ne, List.isEmpty_iff] at sign
  simp only [List.all_eq_true, decide_eq_true_eq] at small
  obtain ⟨⟨⟨⟨space, digit⟩, letter⟩, quote⟩, none⟩ := sign
  refine ⟨ascii b, bs.map ascii, ?_, space, fun pos rest ends => ?_⟩
  · rw [title, Text.glyphs_ascii small]
    rfl
  · have alone : (bs.map ascii ++ rest).takeWhile isDigit = [] := by
      cases bs with
      | nil => exact takeWhile_digits (by simp) ends
      | cons a bs =>
        rw [List.map_cons, List.takeWhile_cons] at none
        rw [List.map_cons, List.cons_append, List.takeWhile_cons]
        split at none
        · cases none
        · simp [*]
    rw [scan_mark digit letter quote pos alone, read pos rest ends, List.length_map]

theorem head_ne_of_ends {rest : List Glyph} (ends : Ends rest) {g : Glyph}
    (other : g.isSpace = false) : rest.head? ≠ some g := by
  intro first
  have space := ends g first
  rw [other] at space
  cases space

/-- The kinds whose title is all there is to read. -/
def isMark : Kind → Bool
  | .eof | .number | .string | .name | .index | .other .. => false
  | _ => true

theorem spells_op (o : Op) : Spells (Kind.title (.op o)) { kind := .op o } := by
  cases o with
  | mod | and | or | invert | dup | swap | drop | puts | cr => exact spells_keyword (by decide)
  | add | mul | div | emit =>
    exact spells_sign rfl (by decide) (by decide) fun pos rest ends => rfl
  | le | ge | same => exact spells_sign rfl (by decide) (by decide) fun pos rest ends => rfl
  | sub | lt | gt | eq =>
    refine spells_sign rfl (by decide) (by decide) fun pos rest ends => ?_
    exact if_neg (head_ne_of_ends ends (by decide))

theorem spells_mark {k : Kind} (mark : isMark k = true) : Spells k.title { kind := k } := by
  cases k with
  | op o => exact spells_op o
  | colon | semicolon | atMark | arrow =>
    exact spells_sign rfl (by decide) (by decide) fun pos rest ends => rfl
  | ifMark | elseMark | thenMark | doMark | loopMark => exact spells_keyword (by decide)
  | eof | number | string | name | index | other => cases mark

/-- A token that some text spells: a name can name something, an index has a letter, and a string
holds no quote. -/
def Genuine (t : Token) : Prop :=
  match t.kind with
  | .string => 0x22 ∉ t.text
  | .name => IsName t.text
  | .index => 0 ≤ t.num.toInt ∧ t.num.toInt ≤ 4
  | _ => True

theorem genuine_mark {t : Token} (mark : isMark t.kind = true) : t.Genuine := by
  unfold Genuine
  split <;> simp_all [isMark]

theorem isMark_of_keyword {text : Text} {k : Kind} (found : Kind.keyword? text = some k) :
    isMark k = true := by
  have table : ∀ k ∈ Kind.keywords, isMark k = true := by decide
  exact table k (List.mem_of_find?_eq_some found)

theorem loopLetter?_le {text : Text} {depth : Nat} (found : loopLetter? text = some depth) :
    depth ≤ 4 := by
  unfold loopLetter? at found
  split at found
  · have inside := (List.idxOf?_eq_some_iff.1 found).1
    have length : loopLetters.length = 5 := by decide
    omega
  · cases found

theorem word_genuine {text : Text} (identifier : isIdentifier text = true) (pos : Pos) :
    (word pos text).Genuine ∧ (word pos text).kind ≠ .eof := by
  unfold word
  split
  · rename_i k found
    have mark := isMark_of_keyword found
    refine ⟨genuine_mark mark, ?_⟩
    rintro rfl
    cases mark
  · rename_i depth _ found
    have few := loopLetter?_le found
    refine ⟨?_, by simp⟩
    have value : (Int32.ofNat depth).toInt = depth := Int32.toInt_ofNat_of_lt (by omega)
    simp only [Genuine, value]
    omega
  · rename_i noKeyword noLetter
    refine ⟨?_, by simp⟩
    simp only [Genuine]
    exact ⟨identifier, by simp [isReserved, noKeyword, noLetter]⟩

theorem identifier_of_parts {g : Glyph} {part : List Glyph} (letter : g.isLetter = true)
    (parts : ∀ h ∈ part, h.isWordPart = true) : isIdentifier (glyphText (g :: part)) = true := by
  obtain ⟨b, isLetter, rfl⟩ := (isLetter_iff g).1 letter
  obtain ⟨bs, rfl, words⟩ := exists_bytes fun h mem => (isWordPart_iff h).1 (parts h mem)
  have all : ∀ a ∈ b :: bs, isWordByte a = true :=
    List.forall_mem_cons.2 ⟨isWordByte_of_letter isLetter, words⟩
  rw [← List.map_cons, glyphText_map_ascii fun a mem => isWordByte_small (all a mem)]
  simp only [isIdentifier, isLetter, Bool.true_and, List.all_eq_true]
  exact words

theorem scanWord_genuine {pos : Pos} {g : Glyph} {rest : List Glyph} {t : Token} {n : Nat}
    (letter : g.isLetter = true) (found : scanWord pos g rest = (.ok t, n)) :
    t.Genuine ∧ t.kind ≠ .eof := by
  have parts : ∀ h ∈ rest.takeWhile isWordPart, h.isWordPart = true :=
    List.all_eq_true.1 List.all_takeWhile
  have identifier := identifier_of_parts letter parts
  have read := word_genuine identifier pos
  simp only [scanWord] at found
  split at found
  · split at found
    · cases found
      exact read
    · cases found
  · cases found
    exact read

theorem scanString_genuine {pos : Pos} {rest : List Glyph} {t : Token} {n : Nat}
    (sound : ∀ g ∈ rest, g.Sound) (found : scanString pos rest = (.ok t, n)) :
    t.Genuine ∧ t.kind ≠ .eof := by
  cases found
  refine ⟨?_, by simp⟩
  simp only [Genuine]
  have inside := List.takeWhile_subset (p := (· ≠ char '"')) (l := rest)
  rw [mem_glyphText_ascii (fun g mem => sound g (inside mem)) (by decide)]
  intro quote
  have other := List.all_eq_true.1 List.all_takeWhile _ quote
  cases other

theorem scanMark_genuine {pos : Pos} {g : Glyph} {rest : List Glyph} {t : Token} {n : Nat}
    (found : scanMark pos g rest = (.ok t, n)) : t.Genuine ∧ t.kind ≠ .eof := by
  have mark : isMark t.kind = true := by
    simp only [scanMark] at found
    repeat' split at found
    all_goals cases found
    all_goals rfl
  refine ⟨genuine_mark mark, ?_⟩
  intro eof
  rw [eof] at mark
  cases mark

theorem number_genuine {pos : Pos} {negative : Bool} {digits lexeme : List Glyph} {t : Token}
    (found : number pos negative digits lexeme = .ok t) : t.Genuine ∧ t.kind ≠ .eof := by
  simp only [number] at found
  generalize (if negative = true then -(digitsValue digits : Int) else digitsValue digits) = n
    at found
  split at found
  · cases found
    exact ⟨trivial, by simp⟩
  · cases found

theorem scan_genuine {pos : Pos} {g : Glyph} {rest : List Glyph} {t : Token} {n : Nat}
    (sound : ∀ h ∈ rest, h.Sound) (found : scan pos g rest = (.ok t, n)) :
    t.Genuine ∧ t.kind ≠ .eof := by
  simp only [scan] at found
  split at found
  · exact number_genuine (congrArg Prod.fst found)
  split at found
  · exact number_genuine (congrArg Prod.fst found)
  split at found
  · rename_i letter
    exact scanWord_genuine letter found
  split at found
  · exact scanString_genuine sound found
  · exact scanMark_genuine found

end Token
end StackLang
