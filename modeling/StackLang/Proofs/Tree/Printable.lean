import StackLang.Proofs.Token.Reading
import StackLang.Tree.Parser

/-! The trees that can be written down. Such a tree has a list of tokens, its text is that list
spelled out, and the list read from left to right builds the tree. -/
namespace StackLang

namespace Node

/-- A tree that a program text can have: no holes and no nested blocks, only operations as
operations, only loops that have a letter, no quotes in strings, and names that can name. -/
inductive Printable : Node → Prop
  | number (value : Int32) : Printable (.number value)
  | string {text : Text} (unquoted : 0x22 ∉ text) : Printable (.string text)
  | op {kind : Kind} (operation : kind.isOperation = true) : Printable (.op kind)
  | call {name : Text} (named : IsName name) : Printable (.call name)
  | define {name : Text} {body : List Node} (named : IsName name)
    (inner : ∀ n ∈ body, Printable n) : Printable (.define name body)
  | branch {yes no : List Node} (first : ∀ n ∈ yes, Printable n)
    (second : ∀ n ∈ no, Printable n) : Printable (.branch yes no)
  | loop {body : List Node} (inner : ∀ n ∈ body, Printable n) : Printable (.loop body)
  | index {depth : Int} (least : 0 ≤ depth) (most : depth ≤ 4) : Printable (.index depth)
  | set {name : Text} (named : IsName name) : Printable (.set name)
  | get {name : Text} (named : IsName name) : Printable (.get name)

def mark (k : Kind) : Token := { kind := k }

def named (name : Text) : Token := { kind := .name, text := name }

mutual

/-- The tokens of a node, without their places. -/
def tokens : Node → List Token
  | number value => [{ kind := .number, num := value }]
  | string text => [{ kind := .string, text }]
  | op kind => [mark kind]
  | block body => tokensOfAll body
  | call name => [named name]
  | define name body => mark .colon :: named name :: (tokensOfAll body ++ [mark .semicolon])
  | branch yes [] => mark .ifMark :: (tokensOfAll yes ++ [mark .thenMark])
  | branch yes no =>
    mark .ifMark :: (tokensOfAll yes ++ mark .elseMark :: (tokensOfAll no ++ [mark .thenMark]))
  | loop body => mark .doMark :: (tokensOfAll body ++ [mark .loopMark])
  | index depth => [{ kind := .index, num := .ofInt depth }]
  | set name => [mark .arrow, named name]
  | get name => [mark .atMark, named name]
  | hole => []

def tokensOfAll : List Node → List Token
  | [] => []
  | n :: ns => n.tokens ++ tokensOfAll ns

end

theorem spelled_mark {k : Kind} (isMark : Token.isMark k = true) : (mark k).Spelled := by
  have spelling : (mark k).spelling = k.title := by cases k <;> first | rfl | cases isMark
  rw [Token.Spelled, spelling]
  exact Token.spells_mark isMark

theorem spelled_named {name : Text} (isName : IsName name) : (named name).Spelled :=
  Token.spells_name isName

theorem spelled_tokensOfAll {ns : List Node} (each : ∀ n ∈ ns, ∀ t ∈ n.tokens, t.Spelled) :
    ∀ t ∈ tokensOfAll ns, t.Spelled := by
  induction ns with
  | nil => simp [tokensOfAll]
  | cons n ns ih =>
    rw [tokensOfAll, List.forall_mem_append]
    exact ⟨each n List.mem_cons_self, ih fun m held => each m (.tail _ held)⟩

theorem spelled_tokens {n : Node} (printable : Printable n) : ∀ t ∈ n.tokens, t.Spelled := by
  have last {k : Kind} (isMark : Token.isMark k = true) : ∀ t ∈ [mark k], t.Spelled :=
    List.forall_mem_singleton.2 (spelled_mark isMark)
  induction printable with
  | number value => exact List.forall_mem_singleton.2 (Token.spells_number value)
  | string unquoted => exact List.forall_mem_singleton.2 (Token.spells_string unquoted)
  | @op kind operation =>
    exact last (by cases kind <;> first | rfl | cases operation)
  | call isName => exact List.forall_mem_singleton.2 (spelled_named isName)
  | define isName _ inner =>
    rw [tokens, List.forall_mem_cons, List.forall_mem_cons, List.forall_mem_append]
    exact ⟨spelled_mark rfl, spelled_named isName, spelled_tokensOfAll inner, last rfl⟩
  | @branch yes no _ _ first second =>
    cases no with
    | nil =>
      rw [tokens, List.forall_mem_cons, List.forall_mem_append]
      exact ⟨spelled_mark rfl, spelled_tokensOfAll first, last rfl⟩
    | cons n ns =>
      simp only [tokens]
      rw [List.forall_mem_cons, List.forall_mem_append, List.forall_mem_cons,
        List.forall_mem_append]
      exact ⟨spelled_mark rfl, spelled_tokensOfAll first, spelled_mark rfl,
        spelled_tokensOfAll second, last rfl⟩
  | loop _ inner =>
    rw [tokens, List.forall_mem_cons, List.forall_mem_append]
    exact ⟨spelled_mark rfl, spelled_tokensOfAll inner, last rfl⟩
  | index least most => exact List.forall_mem_singleton.2 (Token.spells_index least most)
  | set isName | get isName =>
    rw [tokens, List.forall_mem_cons, List.forall_mem_singleton]
    exact ⟨spelled_mark rfl, spelled_named isName⟩

def spread (ts : List Token) : Text := ts.flatMap fun t => Text.space :: t.spelling

theorem spread_append (ts us : List Token) : spread (ts ++ us) = spread ts ++ spread us := by
  simp [spread]

theorem spread_cons (t : Token) (ts : List Token) :
    spread (t :: ts) = Text.space :: (t.spelling ++ spread ts) := by
  simp [spread]

theorem join_spelling (ts : List Token) :
    Text.join [Text.space] (ts.map Token.spelling) = (spread ts).drop 1 := by
  cases ts with
  | nil => rfl
  | cons t ts => simp [Text.join, spread, List.flatMap_map]

theorem spaced?_tokens {ns : List Node}
    (each : ∀ n ∈ ns, ∃ t, n.source? = some t ∧ Text.space :: t = spread n.tokens) :
    spaced? ns = some (spread (tokensOfAll ns)) := by
  induction ns with
  | nil => rfl
  | cons n ns ih =>
    obtain ⟨t, source, written⟩ := each n List.mem_cons_self
    rw [spaced?, source, ih fun m held => each m (.tail _ held), tokensOfAll, spread_append,
      ← written]
    rfl

theorem source?_tokens {n : Node} (printable : Printable n) :
    ∃ t, n.source? = some t ∧ Text.space :: t = spread n.tokens := by
  have alone (t : Token) : Text.space :: t.spelling = spread [t] := by simp [spread]
  have pair (k : Kind) (name : Text) : Text.space :: ((mark k).spelling ++ [Text.space] ++ name) =
      spread [mark k, named name] := by
    simp only [spread, List.flatMap_cons, List.flatMap_nil, List.append_assoc]
    simp [Token.spelling, Token.shown, Token.shownBy, named]
  induction printable with
  | number value => exact ⟨_, rfl, alone { kind := .number, num := value }⟩
  | @string text => exact ⟨_, rfl, alone { kind := .string, text }⟩
  | @op kind operation =>
    cases kind with
    | op o => exact ⟨_, rfl, alone (mark (.op o))⟩
    | _ => cases operation
  | call => exact ⟨_, rfl, alone (named _)⟩
  | @define name body _ _ inner =>
    have opened : utf8 ": " = (mark .colon).spelling ++ [Text.space] := by decide
    have closed : utf8 " ;" = spread [mark .semicolon] := by decide
    have split : tokens (.define name body) =
        [mark .colon, named name] ++ (tokensOfAll body ++ [mark .semicolon]) := rfl
    rw [source?, spaced?_tokens inner, split, spread_append, spread_append, ← pair, ← opened,
      ← closed]
    exact ⟨_, rfl, by simp⟩
  | @branch yes no _ _ first second =>
    have opened : utf8 "IF" = (mark .ifMark).spelling := by decide
    have middle : utf8 " ELSE" = spread [mark .elseMark] := by decide
    have closed : utf8 " THEN" = spread [mark .thenMark] := by decide
    cases no with
    | nil =>
      rw [source?, spaced?_tokens first, tokens, spread_cons, spread_append, ← opened, ← closed]
      exact ⟨_, rfl, by simp⟩
    | cons n ns =>
      have split : tokens (.branch yes (n :: ns)) = mark .ifMark :: (tokensOfAll yes ++
          ([mark .elseMark] ++ (tokensOfAll (n :: ns) ++ [mark .thenMark]))) := rfl
      have source : source? (.branch yes (n :: ns)) = (spaced? yes).bind fun t =>
          (spaced? (n :: ns)).map fun u => utf8 "IF" ++ t ++ utf8 " ELSE" ++ u ++ utf8 " THEN" := rfl
      rw [source, spaced?_tokens first, spaced?_tokens second, split, spread_cons, spread_append,
        spread_append, spread_append, ← opened, ← middle, ← closed]
      exact ⟨_, rfl, by simp⟩
  | loop _ inner =>
    have opened : utf8 "DO" = (mark .doMark).spelling := by decide
    have closed : utf8 " LOOP" = spread [mark .loopMark] := by decide
    rw [source?, spaced?_tokens inner, tokens, spread_cons, spread_append, ← opened, ← closed]
    exact ⟨_, rfl, by simp⟩
  | @index depth => exact ⟨_, rfl, alone { kind := .index, num := .ofInt depth }⟩
  | @set name =>
    have opened : utf8 "-> " = (mark .arrow).spelling ++ [Text.space] := by decide
    exact ⟨_, rfl, opened ▸ pair .arrow name⟩
  | @get name =>
    have opened : utf8 "@ " = (mark .atMark).spelling ++ [Text.space] := by decide
    exact ⟨_, rfl, opened ▸ pair .atMark name⟩

/-- The text of a program is its tokens with single spaces between them. -/
theorem source?_block {ns : List Node} (printable : ∀ n ∈ ns, Printable n) :
    (block ns).source? = some (Text.join [Text.space] ((tokensOfAll ns).map Token.spelling)) := by
  rw [source?, spaced?_tokens fun n mem => source?_tokens (printable n mem), join_spelling]
  rfl

end Node
end StackLang
