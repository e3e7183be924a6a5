import Mathlib.Data.Nat.Digits.Defs
import StackLang.Proofs.Token.Place
import StackLang.Proofs.Token.Reading

/-! The lexical grammar. A source is a sequence of lexemes with blank gaps around them, and every
lexeme has its rule for what may follow it. Reading a source succeeds on exactly the texts of this
grammar, loses nothing of them, and gives each token the place of its lexeme. -/
namespace StackLang

def IsBlank (gap : Text) : Prop := ∀ g ∈ gap.glyphs, g.isSpace = true

def decimalValue (digits : Text) : Nat :=
  Nat.ofDigits 10 (digits.reverse.map fun d => d.toNat - 48)

namespace Token
open Glyph

def signs : List Kind :=
  [Op.add, Op.sub, Op.mul, Op.div, Op.lt, Op.gt, Op.le, Op.ge, Op.eq, Op.same, Op.emit].map .op ++
    [.colon, .semicolon, .arrow, .atMark]

/-- What must not follow a sign, since the two would be read as something else. -/
def glues : Kind → Glyph → Bool
  | .op .sub, g => g.isDigit || g == char '>'
  | .op .lt, g | .op .gt, g | .op .eq, g => g == char '='
  | _, _ => false

/-- `Lexeme lexeme rest t`: with `rest` behind it, `lexeme` is one lexeme, and it stands for `t`,
whose place is left open. -/
inductive Lexeme : Text → Text → Token → Prop
  | number {digits rest : Text} {value : Int32} (some : digits ≠ [])
    (all : ∀ d ∈ digits, isDigitByte d = true) (same : value.toInt = decimalValue digits)
    (ends : ∀ g ∈ rest.glyphs.head?, g.isDigit = false) :
    Lexeme digits rest { kind := .number, num := value }
  | negative {digits rest : Text} {value : Int32} (some : digits ≠ [])
    (all : ∀ d ∈ digits, isDigitByte d = true) (same : value.toInt = -decimalValue digits)
    (ends : ∀ g ∈ rest.glyphs.head?, g.isDigit = false) :
    Lexeme (0x2D :: digits) rest { kind := .number, num := value }
  | keyword {k : Kind} {rest : Text} (reserved : k ∈ Kind.keywords) (ends : Ends rest.glyphs) :
    Lexeme k.title rest { kind := k }
  | index {depth : Nat} {letter : UInt8} {rest : Text} (reserved : loopLetters[depth]? = some letter)
    (ends : Ends rest.glyphs) : Lexeme [letter] rest { kind := .index, num := .ofNat depth }
  | name {text rest : Text} (named : IsName text) (ends : Ends rest.glyphs) :
    Lexeme text rest { kind := .name, text }
  | string {text : Text} (rest : Text) (unquoted : 0x22 ∉ text) :
    Lexeme (0x22 :: (text ++ [0x22])) rest { kind := .string, text }
  | unclosed {text : Text} (unquoted : 0x22 ∉ text) : Lexeme (0x22 :: text) [] { kind := .string, text }
  | sign {k : Kind} {rest : Text} (listed : k ∈ signs)
    (ends : ∀ g ∈ rest.glyphs.head?, glues k g = false) : Lexeme k.title rest { kind := k }

end Token

/-- `SplitsInto before src ts`: behind `before`, the text `src` is a sequence of gaps and lexemes,
and `ts` are the tokens of these at their places, with the end as the last of them. -/
inductive SplitsInto : Text → Text → List Token → Prop
  | ended {before gap : Text} (blank : IsBlank gap) :
    SplitsInto before gap [{ kind := .eof, pos := .behind (before ++ gap) }]
  | more {before gap lexeme rest : Text} {t : Token} {ts : List Token} (blank : IsBlank gap)
    (stands : Token.Lexeme lexeme rest t) (later : SplitsInto (before ++ gap ++ lexeme) rest ts) :
    SplitsInto before (gap ++ lexeme ++ rest) ({ t with pos := .behind (before ++ gap) } :: ts)

theorem takeWhile_append_eq {α : Type} {p : α → Bool} {gs hs : List α} :
    (gs ++ hs).takeWhile p = gs ↔ (∀ g ∈ gs, p g = true) ∧ ∀ h ∈ hs.head?, p h = false := by
  induction gs with
  | nil =>
    cases hs with
    | nil => simp
    | cons h hs => simp [List.takeWhile_cons]
  | cons g gs ih =>
    rw [List.cons_append, List.takeWhile_cons, List.forall_mem_cons]
    by_cases holds : p g = true
    · simp [holds, ih]
    · simp [holds]

theorem takeWhile_of_length {α : Type} {p : α → Bool} {gs hs : List α}
    (size : ((gs ++ hs).takeWhile p).length = gs.length) :
    (∀ g ∈ gs, p g = true) ∧ ∀ h ∈ hs.head?, p h = false := by
  apply takeWhile_append_eq.1
  have first := List.prefix_iff_eq_take.1 (List.takeWhile_prefix p (l := gs ++ hs))
  rw [size, List.take_left] at first
  exact first

theorem digitsValue_ascii {digits : Text} (all : ∀ d ∈ digits, isDigitByte d = true) :
    digitsValue (digits.map Glyph.ascii) = decimalValue digits := by
  induction digits using List.reverseRecOn with
  | nil => rfl
  | append_singleton ds d ih =>
    obtain ⟨init, last⟩ := List.forall_mem_append.1 all
    have digit := isDigitByte_iff.1 (last d List.mem_cons_self)
    have value := ih init
    simp only [digitsValue, decimalValue] at value ⊢
    simp only [List.map_append, List.map_cons, List.map_nil, List.foldl_append, List.foldl_cons,
      List.foldl_nil, List.reverse_append, List.reverse_cons, List.reverse_nil, List.nil_append,
      List.singleton_append, Nat.ofDigits_cons, value, Glyph.toNat_ascii (by omega : d.toNat < 0x80)]
    omega

namespace Token
open Glyph

def Scans (lexeme rest : Text) (t : Token) : Prop :=
  ∃ g gs, lexeme.glyphs = g :: gs ∧ (lexeme ++ rest).glyphs = g :: (gs ++ rest.glyphs) ∧
    g.isSpace = false ∧ ∀ pos, scan pos g (gs ++ rest.glyphs) = (.ok { t with pos }, gs.length)

theorem glyphs_append_of_ascii {u : Text} (small : ∀ b ∈ u, b.toNat < 0x80) (v : Text) :
    (u ++ v).glyphs = u.map ascii ++ v.glyphs := by
  induction u with
  | nil => rfl
  | cons b u ih =>
    rw [List.cons_append, Text.glyphs_cons_ascii (small b List.mem_cons_self),
      ih fun a mem => small a (.tail _ mem)]
    rfl

theorem scans_ascii {b : UInt8} {u rest : Text} {t : Token} (small : ∀ a ∈ b :: u, a.toNat < 0x80)
    (space : (ascii b).isSpace = false)
    (read : ∀ pos, scan pos (ascii b) (u.map ascii ++ rest.glyphs) = (.ok { t with pos }, u.length)) :
    Scans (b :: u) rest t := by
  refine ⟨ascii b, u.map ascii, Text.glyphs_ascii small, glyphs_append_of_ascii small rest, space, ?_⟩
  intro pos
  rw [read pos, List.length_map]

theorem scans_spelled {text rest : Text} {t : Token} (small : ∀ b ∈ text, b.toNat < 0x80)
    (spells : Spells text t) (ends : Ends rest.glyphs) : Scans text rest t := by
  obtain ⟨g, gs, glyphs, space, read⟩ := spells
  refine ⟨g, gs, glyphs, ?_, space, fun pos => read pos rest.glyphs ends⟩
  rw [glyphs_append_of_ascii small, ← Text.glyphs_ascii small, glyphs]
  rfl

theorem small_of_identifier {text : Text} (identifier : isIdentifier text = true) :
    ∀ b ∈ text, b.toNat < 0x80 := by
  cases text with
  | nil => cases identifier
  | cons b bs => exact fun a mem => isWordByte_small (identifier_small identifier a mem)

theorem title_small {k : Kind} (known : k ∈ Kind.keywords ++ signs) :
    k.title ≠ [] ∧ ∀ b ∈ k.title, b.toNat < 0x80 := by
  have table : ((Kind.keywords ++ signs).all fun k =>
      !k.title.isEmpty && k.title.all fun b => decide (b.toNat < 0x80)) = true := by decide
  have both := List.all_eq_true.1 table k known
  rw [Bool.and_eq_true, List.all_eq_true] at both
  exact ⟨by simpa using both.1, fun b mem => of_decide_eq_true (both.2 b mem)⟩

theorem isDigitByte_small {digits : Text} (all : ∀ d ∈ digits, isDigitByte d = true) :
    ∀ d ∈ digits, d.toNat < 0x80 := by
  intro d mem
  have range := isDigitByte_iff.1 (all d mem)
  omega

theorem takeWhile_isDigit {digits rest : Text} (all : ∀ d ∈ digits, isDigitByte d = true)
    (ends : ∀ g ∈ rest.glyphs.head?, g.isDigit = false) :
    (digits.map ascii ++ rest.glyphs).takeWhile isDigit = digits.map ascii := by
  refine takeWhile_append_eq.2 ⟨?_, ends⟩
  intro g mem
  obtain ⟨d, held, rfl⟩ := List.mem_map.1 mem
  exact isDigit_ascii (all d held)

theorem scans_number {digits rest : Text} {value : Int32} (some : digits ≠ [])
    (all : ∀ d ∈ digits, isDigitByte d = true) (same : value.toInt = decimalValue digits)
    (ends : ∀ g ∈ rest.glyphs.head?, g.isDigit = false) :
    Scans digits rest { kind := .number, num := value } := by
  cases digits with
  | nil => exact absurd rfl some
  | cons d ds =>
    obtain ⟨first, others⟩ := List.forall_mem_cons.1 all
    have digit := isDigit_ascii first
    refine scans_ascii (isDigitByte_small all) (isSpace_of_wordPart (isWordPart_of_digit digit)) ?_
    intro pos
    have whole : (if false then -(digitsValue (ascii d :: ds.map ascii) : Int)
        else digitsValue (ascii d :: ds.map ascii)) = value.toInt := by
      rw [same, ← digitsValue_ascii all]
      rfl
    simp only [scan, takeWhile_isDigit others ends, digit, if_true, List.length_map]
    rw [number_toInt whole]

theorem scans_negative {digits rest : Text} {value : Int32} (some : digits ≠ [])
    (all : ∀ d ∈ digits, isDigitByte d = true) (same : value.toInt = -decimalValue digits)
    (ends : ∀ g ∈ rest.glyphs.head?, g.isDigit = false) :
    Scans (0x2D :: digits) rest { kind := .number, num := value } := by
  have small : ∀ d ∈ 0x2D :: digits, d.toNat < 0x80 :=
    List.forall_mem_cons.2 ⟨by decide, isDigitByte_small all⟩
  refine scans_ascii small (by decide) fun pos => ?_
  have sub : ascii 0x2D = char '-' := by decide
  have minus : (char '-').isDigit = false := by decide
  have more : digits.map ascii ≠ [] := by simpa using some
  have whole : (if true then -(digitsValue (digits.map ascii) : Int)
      else digitsValue (digits.map ascii)) = value.toInt := by
    rw [same, ← digitsValue_ascii all]
    rfl
  simp only [scan, takeWhile_isDigit all ends, sub, minus, more, ne_eq, not_false_eq_true, and_self,
    Bool.false_eq_true, if_true, if_false, List.length_map]
  rw [number_toInt whole]

theorem scans_index {depth : Nat} {letter : UInt8} {rest : Text}
    (reserved : loopLetters[depth]? = some letter) (ends : Ends rest.glyphs) :
    Scans [letter] rest { kind := .index, num := .ofNat depth } := by
  have table : ∀ d : Fin loopLetters.length, isIdentifier [loopLetters.get d] = true ∧
      Kind.keyword? [loopLetters.get d] = none ∧ loopLetter? [loopLetters.get d] = some d.val ∧
        (loopLetters.get d).toNat < 0x80 := by decide
  obtain ⟨few, rfl⟩ := List.getElem?_eq_some_iff.1 reserved
  obtain ⟨identifier, free, found, small⟩ := table ⟨depth, few⟩
  refine scans_spelled (List.forall_mem_singleton.2 small) (spells_word identifier ?_) ends
  intro pos
  simp only [word, free, found]

theorem scans_string {text : Text} (unquoted : 0x22 ∉ text) (rest : Text) :
    Scans (0x22 :: (text ++ [0x22])) rest { kind := .string, text } := by
  have glyphs (more : Text) : Text.glyphs (0x22 :: (text ++ 0x22 :: more)) =
      char '"' :: (text.glyphs ++ char '"' :: more.glyphs) := by
    rw [Text.glyphs_cons_ascii (by decide), Text.glyphs_append_ascii (by decide)]
    rfl
  refine ⟨char '"', text.glyphs ++ [char '"'], ?_, ?_, by decide, fun pos => ?_⟩
  · simpa using glyphs []
  · simpa using glyphs rest
  · have inside : (text.glyphs ++ char '"' :: rest.glyphs).takeWhile (· ≠ char '"') = text.glyphs :=
      takeWhile_append_eq.2 ⟨quote_not_mem unquoted, by simp⟩
    have read : scan pos (char '"') (text.glyphs ++ char '"' :: rest.glyphs) =
        scanString pos (text.glyphs ++ char '"' :: rest.glyphs) := rfl
    rw [List.append_assoc, List.singleton_append, read, scanString, inside]
    simp

theorem scans_unclosed {text : Text} (unquoted : 0x22 ∉ text) :
    Scans (0x22 :: text) [] { kind := .string, text } := by
  have glyphs : Text.glyphs (0x22 :: text) = char '"' :: text.glyphs :=
    Text.glyphs_cons_ascii (by decide) text
  refine ⟨char '"', text.glyphs, glyphs, ?_, by decide, fun pos => ?_⟩
  · simpa using glyphs
  · have inside : text.glyphs.takeWhile (· ≠ char '"') = text.glyphs :=
      List.takeWhile_eq_self_iff.2 (quote_not_mem unquoted)
    have read : scan pos (char '"') text.glyphs = scanString pos text.glyphs := rfl
    rw [Text.glyphs_nil, List.append_nil, read, scanString, inside]
    simp

theorem scan_sign {g : Glyph} (digit : g.isDigit = false) (letter : g.isLetter = false)
    (quote : g ≠ char '"') {rest : List Glyph}
    (alone : g ≠ char '-' ∨ ∀ h ∈ rest.head?, h.isDigit = false) (pos : Pos) :
    scan pos g rest = scanMark pos g rest := by
  have minus : ¬ (g = char '-' ∧ rest.takeWhile isDigit ≠ []) := by
    rintro ⟨same, some⟩
    rcases alone with other | ends
    · exact other same
    · exact some ((@takeWhile_append_eq _ isDigit [] rest).2 ⟨by simp, ends⟩)
  simp only [scan, digit, letter, quote, minus, Bool.false_eq_true, if_false]

theorem scans_title {k : Kind} {b : UInt8} {u rest : Text} (title : k.title = b :: u)
    (small : ((b :: u).all fun a => a.toNat < 0x80) = true)
    (plain : ((ascii b).isSpace || (ascii b).isDigit || (ascii b).isLetter ||
      ascii b == char '"') = false)
    (alone : ascii b ≠ char '-' ∨ ∀ h ∈ (u.map ascii ++ rest.glyphs).head?, h.isDigit = false)
    (found : ∀ pos, scanMark pos (ascii b) (u.map ascii ++ rest.glyphs) =
      (.ok { kind := k, pos }, u.length)) : Scans k.title rest { kind := k } := by
  simp only [Bool.or_eq_false_iff, beq_eq_false_iff_ne] at plain
  obtain ⟨⟨⟨space, digit⟩, letter⟩, quote⟩ := plain
  rw [title]
  refine scans_ascii (by simpa using small) space fun pos => ?_
  rw [scan_sign digit letter quote alone, found]

theorem scans_sign {k : Kind} {rest : Text} (listed : k ∈ signs)
    (ends : ∀ g ∈ rest.glyphs.head?, glues k g = false) : Scans k.title rest { kind := k } := by
  have apart {g : Glyph} (glued : glues k g = true) : rest.glyphs.head? ≠ some g := by
    intro first
    cases glued.symm.trans (ends g first)
  cases k with
  | op o =>
    cases o with
    | add | mul | div | emit | le | ge | same =>
      exact scans_title rfl (by decide) (by decide) (.inl (by decide)) fun pos => rfl
    | lt | gt | eq =>
      exact scans_title rfl (by decide) (by decide) (.inl (by decide))
        fun pos => if_neg (apart rfl)
    | sub =>
      have number : ∀ h ∈ rest.glyphs.head?, h.isDigit = false :=
        fun h first => (Bool.or_eq_false_iff.1 (ends h first)).1
      exact scans_title rfl (by decide) (by decide) (.inr number) fun pos => if_neg (apart rfl)
    | mod | and | or | invert | dup | swap | drop | puts | cr => exact absurd listed (by decide)
  | colon | semicolon | atMark =>
    exact scans_title rfl (by decide) (by decide) (.inl (by decide)) fun pos => rfl
  | arrow =>
    refine scans_title rfl (by decide) (by decide) (.inr ?_) fun pos => rfl
    rintro h ⟨⟩
    rfl
  | _ => simp [signs] at listed

theorem Lexeme.scans {lexeme rest : Text} {t : Token} (stands : Lexeme lexeme rest t) :
    Scans lexeme rest t := by
  cases stands with
  | number some all same ends => exact scans_number some all same ends
  | negative some all same ends => exact scans_negative some all same ends
  | keyword reserved ends =>
    have small := (title_small (List.mem_append_left signs reserved)).2
    exact scans_spelled small (spells_keyword reserved) ends
  | index reserved ends => exact scans_index reserved ends
  | name named ends =>
    exact scans_spelled (small_of_identifier named.identifier) (spells_name named) ends
  | string rest unquoted => exact scans_string unquoted rest
  | unclosed unquoted => exact scans_unclosed unquoted
  | sign listed ends => exact scans_sign listed ends

theorem bytes_of_class {q : UInt8 → Bool} (small : ∀ b, q b = true → b.toNat < 0x80) {text : Text}
    (all : ∀ g ∈ text.glyphs, ∃ b, q b = true ∧ g = ascii b) :
    text.glyphs = text.map ascii ∧ ∀ b ∈ text, q b = true := by
  obtain ⟨bs, glyphs, holds⟩ := exists_bytes all
  have same : text = bs := by
    rw [← Text.glyphText_glyphs text, glyphs, glyphText_map_ascii fun b mem => small b (holds b mem)]
  subst same
  exact ⟨glyphs, holds⟩

theorem digits_text {text : Text} (all : ∀ g ∈ text.glyphs, g.isDigit = true) :
    digitsValue text.glyphs = decimalValue text ∧ ∀ d ∈ text, isDigitByte d = true := by
  have small (b : UInt8) (digit : isDigitByte b = true) : b.toNat < 0x80 :=
    isDigitByte_small (List.forall_mem_singleton.2 digit) b List.mem_cons_self
  obtain ⟨glyphs, digits⟩ := bytes_of_class small fun g mem => (isDigit_iff g).1 (all g mem)
  exact ⟨glyphs ▸ digitsValue_ascii digits, digits⟩

theorem number_ok {pos : Pos} {negative : Bool} {digits lexeme : List Glyph} {t : Token}
    (found : number pos negative digits lexeme = .ok t) :
    ∃ value : Int32, t = { kind := .number, pos, num := value } ∧
      value.toInt = if negative then -(digitsValue digits : Int) else digitsValue digits := by
  simp only [number] at found
  generalize (if negative = true then -(digitsValue digits : Int) else digitsValue digits) = n
    at found ⊢
  split at found
  · cases found
    exact ⟨.ofInt n, rfl, Int32.toInt_ofInt_of_le (by omega) (by omega)⟩
  · cases found

/-- The token is the one that the lexeme stands for, at the given place. -/
def Placed (lexeme rest : Text) (pos : Pos) (t : Token) : Prop :=
  ∃ u, Lexeme lexeme rest u ∧ t = { u with pos }

variable {pos : Pos} {g : Glyph} {gs : List Glyph} {lexeme rest : Text} {t : Token}

theorem placed_number (glyphs : lexeme.glyphs = g :: gs) (digit : g.isDigit = true)
    (size : ((gs ++ rest.glyphs).takeWhile isDigit).length = gs.length)
    (found : number pos false (g :: gs) (g :: gs) = .ok t) : Placed lexeme rest pos t := by
  obtain ⟨digits, ends⟩ := takeWhile_of_length size
  obtain ⟨value, rfl, same⟩ := number_ok found
  have whole : ∀ h ∈ lexeme.glyphs, h.isDigit = true := by
    rw [glyphs]
    exact List.forall_mem_cons.2 ⟨digit, digits⟩
  obtain ⟨text, all⟩ := digits_text whole
  have some : lexeme ≠ [] := by
    rintro rfl
    cases Text.glyphs_nil.symm.trans glyphs
  refine ⟨_, .number some all ?_ ends, rfl⟩
  rw [← text, glyphs]
  exact same

theorem placed_negative (glyphs : lexeme.glyphs = char '-' :: gs)
    (size : ((gs ++ rest.glyphs).takeWhile isDigit).length = gs.length) (some : gs ≠ [])
    (found : number pos true gs (char '-' :: gs) = .ok t) : Placed lexeme rest pos t := by
  obtain ⟨digits, ends⟩ := takeWhile_of_length size
  obtain ⟨value, rfl, same⟩ := number_ok found
  obtain ⟨minus, ds, rfl, first, tail⟩ := @Text.glyphs_cut lexeme [char '-'] gs glyphs
  have sub : minus = [0x2D] := by
    rw [← Text.glyphText_glyphs minus, first]
    decide
  obtain ⟨text, all⟩ := digits_text (tail ▸ digits)
  have more : ds ≠ [] := by
    rintro rfl
    exact some (tail.symm.trans Text.glyphs_nil)
  rw [← tail, text] at same
  rw [sub]
  exact ⟨_, .negative more all same ends, rfl⟩

theorem placed_word (identifier : isIdentifier lexeme = true) (ends : Ends rest.glyphs) (pos : Pos) :
    Placed lexeme rest pos (word pos lexeme) := by
  unfold word
  split
  · rename_i k found
    have listed := List.mem_of_find?_eq_some found
    have title : k.title = lexeme := by simpa using List.find?_some found
    subst title
    exact ⟨_, .keyword listed ends, rfl⟩
  · rename_i depth _ found
    unfold loopLetter? at found
    split at found
    · rename_i letter
      obtain ⟨few, same, -⟩ := List.idxOf?_eq_some_iff.1 found
      exact ⟨_, .index (List.getElem?_eq_some_iff.2 ⟨few, same⟩) ends, rfl⟩
    · cases found
  · rename_i noKeyword noLetter
    have named : IsName lexeme := ⟨identifier, by simp [isReserved, noKeyword, noLetter]⟩
    exact ⟨_, .name named ends, rfl⟩

theorem placed_scanWord (glyphs : lexeme.glyphs = g :: gs) (letter : g.isLetter = true)
    (found : scanWord pos g (gs ++ rest.glyphs) = (.ok t, gs.length)) :
    Placed lexeme rest pos t := by
  have size : ((gs ++ rest.glyphs).takeWhile isWordPart).length = gs.length := by
    simp only [scanWord] at found
    repeat' split at found
    all_goals exact congrArg Prod.snd found
  have run := takeWhile_of_length size
  have text : glyphText (g :: gs) = lexeme := by rw [← glyphs, Text.glyphText_glyphs]
  have identifier : isIdentifier lexeme = true := text ▸ identifier_of_parts letter run.1
  simp only [scanWord, takeWhile_append_eq.2 run, List.drop_left, text] at found
  split at found
  · rename_i next first
    split at found
    · rename_i space
      cases found
      refine placed_word identifier ?_ pos
      intro h also
      cases first.symm.trans also
      exact space
    · cases found
  · rename_i nothing
    cases found
    refine placed_word identifier ?_ pos
    intro h also
    cases nothing.symm.trans also

theorem placed_scanString (glyphs : lexeme.glyphs = char '"' :: gs)
    (found : scanString pos (gs ++ rest.glyphs) = (.ok t, gs.length)) :
    Placed lexeme rest pos t := by
  have sound : ∀ h ∈ gs ++ rest.glyphs, h.Sound := by
    have first := Text.sound_glyphs lexeme
    rw [glyphs] at first
    exact List.forall_mem_append.2
      ⟨(List.forall_mem_cons.1 first).2, Text.sound_glyphs rest⟩
  have unquoted := (scanString_genuine sound found).1
  have text : lexeme = glyphText (char '"' :: gs) := by rw [← glyphs, Text.glyphText_glyphs]
  have quote : (char '"').bytes = [0x22] := by decide
  have split := List.takeWhile_append_dropWhile (p := fun h => decide (h ≠ char '"'))
    (l := gs ++ rest.glyphs)
  simp only [scanString] at found
  obtain ⟨same, size⟩ := Prod.mk.inj found
  cases same
  simp only [Genuine] at unquoted
  generalize (gs ++ rest.glyphs).takeWhile (fun h => decide (h ≠ char '"')) = inside at *
  cases left : (gs ++ rest.glyphs).dropWhile fun h => decide (h ≠ char '"') with
  | nil =>
    -- no quote is left, so the string takes all
    rw [left, List.append_nil] at split
    rw [split, if_neg (Nat.lt_irrefl _), List.length_append, Nat.add_zero] at size
    have ended : rest.glyphs = [] := List.eq_nil_of_length_eq_zero (by omega)
    have nothing : rest = [] := by rw [← Text.glyphText_glyphs rest, ended]; rfl
    subst nothing
    rw [Text.glyphs_nil, List.append_nil] at split
    subst split
    rw [text]
    exact ⟨_, .unclosed unquoted, rfl⟩
  | cons h behind =>
    have stopped := List.head?_dropWhile_not (fun h => decide (h ≠ char '"')) (gs ++ rest.glyphs)
    rw [left] at stopped split
    simp only [List.head?_cons, decide_eq_false_iff_not, not_not] at stopped
    subst stopped
    have longer : inside.length < (gs ++ rest.glyphs).length := by
      rw [← split]
      simp
    rw [if_pos longer] at size
    have whole : gs = inside ++ [char '"'] := by
      have joined : (inside ++ [char '"']) ++ behind = gs ++ rest.glyphs := by simpa using split
      exact (List.append_inj_left joined (by simpa using size)).symm
    rw [text, whole]
    have written : glyphText (char '"' :: (inside ++ [char '"'])) =
        0x22 :: (glyphText inside ++ [0x22]) := by
      simp [glyphText, quote]
    rw [written]
    exact ⟨_, .string rest unquoted, rfl⟩

theorem followed_ok {c : Char} {long short : Kind} {hs : List Glyph}
    (found : (if (gs ++ hs).head? = some (char c) then (.ok { kind := long, pos }, 1)
      else (.ok { kind := short, pos }, 0) : Found) = (.ok t, gs.length)) :
    gs = [char c] ∧ t = { kind := long, pos } ∨
      gs = [] ∧ t = { kind := short, pos } ∧ hs.head? ≠ some (char c) := by
  split at found
  · rename_i first
    obtain ⟨same, size⟩ := Prod.mk.inj found
    obtain ⟨h, rfl⟩ := List.length_eq_one_iff.1 size.symm
    cases first
    cases same
    exact .inl ⟨rfl, rfl⟩
  · rename_i other
    obtain ⟨same, size⟩ := Prod.mk.inj found
    cases List.eq_nil_of_length_eq_zero size.symm
    cases same
    exact .inr ⟨rfl, rfl, other⟩

theorem placed_sign (glyphs : lexeme.glyphs = g :: gs) {k : Kind} (listed : k ∈ signs)
    (title : glyphText (g :: gs) = k.title) (ends : ∀ h ∈ rest.glyphs.head?, glues k h = false)
    (pos : Pos) : Placed lexeme rest pos { kind := k, pos } := by
  have text : lexeme = k.title := by rw [← title, ← glyphs, Text.glyphText_glyphs]
  subst text
  exact ⟨_, .sign listed ends, rfl⟩

theorem placed_scanMark (glyphs : lexeme.glyphs = g :: gs)
    (alone : g = char '-' → (gs ++ rest.glyphs).takeWhile isDigit = [])
    (found : scanMark pos g (gs ++ rest.glyphs) = (.ok t, gs.length)) : Placed lexeme rest pos t := by
  have single {k : Kind} (glued : ∀ h, glues k h = false) (listed : k ∈ signs)
      (title : glyphText [g] = k.title)
      (found : ((.ok { kind := k, pos }, 0) : Found) = (.ok t, gs.length)) :
      Placed lexeme rest pos t := by
    obtain ⟨same, size⟩ := Prod.mk.inj found
    cases List.eq_nil_of_length_eq_zero size.symm
    cases same
    exact placed_sign glyphs listed title (fun h _ => glued h) pos
  have comparison {long short : Kind} (glued : ∀ h, glues long h = false)
      (equals : ∀ h, glues short h = (h == char '=')) (listed : long ∈ signs ∧ short ∈ signs)
      (title : glyphText [g, char '='] = long.title ∧ glyphText [g] = short.title)
      (found : (if (gs ++ rest.glyphs).head? = some (char '=') then (.ok { kind := long, pos }, 1)
        else (.ok { kind := short, pos }, 0) : Found) = (.ok t, gs.length)) :
      Placed lexeme rest pos t := by
    rcases followed_ok found with ⟨rfl, rfl⟩ | ⟨rfl, rfl, apart⟩
    · exact placed_sign glyphs listed.1 title.1 (fun h _ => glued h) pos
    · refine placed_sign glyphs listed.2 title.2 (fun h first => ?_) pos
      rw [equals, beq_eq_false_iff_ne]
      rintro rfl
      exact apart first
  simp only [scanMark] at found
  split at found
  · rcases followed_ok found with ⟨rfl, rfl⟩ | ⟨rfl, rfl, apart⟩
    · exact placed_sign glyphs (by decide) (by decide) (fun _ _ => rfl) pos
    · refine placed_sign glyphs (by decide) (by decide) (fun h first => ?_) pos
      have number := (@takeWhile_append_eq _ isDigit [] rest.glyphs).1 (alone rfl)
      refine Bool.or_eq_false_iff.2 ⟨number.2 h first, ?_⟩
      rw [beq_eq_false_iff_ne]
      rintro rfl
      exact apart first
  · exact comparison (fun _ => rfl) (fun _ => rfl) (by decide) (by decide) found
  · exact comparison (fun _ => rfl) (fun _ => rfl) (by decide) (by decide) found
  · exact comparison (fun _ => rfl) (fun _ => rfl) (by decide) (by decide) found
  · exact single (fun _ => rfl) (by decide) (by decide) found
  · exact single (fun _ => rfl) (by decide) (by decide) found
  · exact single (fun _ => rfl) (by decide) (by decide) found
  · exact single (fun _ => rfl) (by decide) (by decide) found
  · exact single (fun _ => rfl) (by decide) (by decide) found
  · exact single (fun _ => rfl) (by decide) (by decide) found
  · exact single (fun _ => rfl) (by decide) (by decide) found
  · cases found

theorem placed_scan (glyphs : lexeme.glyphs = g :: gs)
    (found : scan pos g (gs ++ rest.glyphs) = (.ok t, gs.length)) : Placed lexeme rest pos t := by
  simp only [scan] at found
  split at found
  · rename_i digit
    obtain ⟨value, size⟩ := Prod.mk.inj found
    rw [takeWhile_append_eq.2 (takeWhile_of_length size)] at value
    exact placed_number glyphs digit size value
  rename_i noDigit
  split at found
  · rename_i minus
    obtain ⟨rfl, some⟩ := minus
    obtain ⟨value, size⟩ := Prod.mk.inj found
    rw [takeWhile_append_eq.2 (takeWhile_of_length size)] at value some
    exact placed_negative glyphs size some value
  rename_i noNumber
  split at found
  · rename_i letter
    exact placed_scanWord glyphs letter found
  split at found
  · rename_i quote
    subst quote
    exact placed_scanString glyphs found
  · refine placed_scanMark glyphs (fun minus => ?_) found
    by_contra some
    exact noNumber ⟨minus, some⟩

end Token
end StackLang
