import StackLang.Tree.Parser

/-! The grammar of programs: a derivation is a list of tokens cut up into nodes, each with the
bodies inside it. No list of tokens has two derivations. -/
namespace StackLang

/-- The node that a token is on its own. -/
def Token.node? (t : Token) : Option Node :=
  match t.kind with
  | .number => some (.number t.num)
  | .string => some (.string t.text)
  | .name => some (.call t.text)
  | .index => some (.index t.num.toInt)
  | k => if k.isOperation then some (.op k) else none

abbrev Mark (k : Kind) := { t : Token // t.kind = k }

/-- A body as the grammar derives it: no node at all, or a node of one of the seven forms and the
rest of the body. -/
inductive Derivation where
  | nothing
  | single (t : Token) (n : Node) (alone : t.node? = some n) (rest : Derivation)
  | define (colon : Mark .colon) (name : Mark .name) (body : Derivation) (ends : Mark .semicolon)
      (rest : Derivation)
  | branch (opens : Mark .ifMark) (yes : Derivation) (ends : Mark .thenMark) (rest : Derivation)
  | choice (opens : Mark .ifMark) (yes : Derivation) (other : Mark .elseMark) (no : Derivation)
      (ends : Mark .thenMark) (rest : Derivation)
  | loop (opens : Mark .doMark) (body : Derivation) (ends : Mark .loopMark) (rest : Derivation)
  | set (arrow : Mark .arrow) (name : Mark .name) (rest : Derivation)
  | get (sign : Mark .atMark) (name : Mark .name) (rest : Derivation)

/-- The tokens before the end token, all of them if there is none. -/
def beforeEnd (ts : List Token) : List Token := ts.takeWhile (·.kind ≠ .eof)

namespace Derivation

/-- The tokens that a derivation cuts up, each once and in order. -/
def tokens : Derivation → List Token
  | nothing => []
  | single t _ _ rest => t :: rest.tokens
  | define colon name body ends rest =>
    colon.1 :: name.1 :: (body.tokens ++ ends.1 :: rest.tokens)
  | branch opens yes ends rest => opens.1 :: (yes.tokens ++ ends.1 :: rest.tokens)
  | choice opens yes other no ends rest =>
    opens.1 :: (yes.tokens ++ other.1 :: (no.tokens ++ ends.1 :: rest.tokens))
  | loop opens body ends rest => opens.1 :: (body.tokens ++ ends.1 :: rest.tokens)
  | set arrow name rest => arrow.1 :: name.1 :: rest.tokens
  | get sign name rest => sign.1 :: name.1 :: rest.tokens

/-- The tree of a derivation; a branch without a second body has an empty one. -/
def nodes : Derivation → List Node
  | nothing => []
  | single _ n _ rest => n :: rest.nodes
  | define _ name body _ rest => .define name.1.text body.nodes :: rest.nodes
  | branch _ yes _ rest => .branch yes.nodes [] :: rest.nodes
  | choice _ yes _ no _ rest => .branch yes.nodes no.nodes :: rest.nodes
  | loop _ body _ rest => .loop body.nodes :: rest.nodes
  | set _ name rest => .set name.1.text :: rest.nodes
  | get _ name rest => .get name.1.text :: rest.nodes

def append : Derivation → Derivation → Derivation
  | nothing, e => e
  | single t n alone rest, e => single t n alone (rest.append e)
  | define colon name body ends rest, e => define colon name body ends (rest.append e)
  | branch opens yes ends rest, e => branch opens yes ends (rest.append e)
  | choice opens yes other no ends rest, e => choice opens yes other no ends (rest.append e)
  | loop opens body ends rest, e => loop opens body ends (rest.append e)
  | set arrow name rest, e => set arrow name (rest.append e)
  | get sign name rest, e => get sign name (rest.append e)

@[simp] theorem tokens_append (d e : Derivation) :
    (d.append e).tokens = d.tokens ++ e.tokens := by
  induction d with
  | nothing => rfl
  | _ => simp_all [append, tokens]

@[simp] theorem nodes_append (d e : Derivation) : (d.append e).nodes = d.nodes ++ e.nodes := by
  induction d with
  | nothing => rfl
  | _ => simp_all [append, nodes]

def closers : List Kind := [.semicolon, .elseMark, .thenMark, .loopMark]

def Stops (ts : List Token) : Prop := ∀ t, ts.head? = some t → t.kind ∈ closers

theorem stops_nil : Stops [] := by
  intro t first
  cases first

theorem stops_mark {k : Kind} (t : Mark k) (ts : List Token)
    (ends : k ∈ closers := by decide) : Stops (t.1 :: ts) := by
  intro u first
  cases first
  rw [t.2]
  exact ends

theorem nothing_of_stops {d : Derivation} {ts : List Token} (stops : Stops (d.tokens ++ ts)) :
    d = nothing := by
  cases d with
  | nothing => rfl
  | single t n alone rest =>
    have kind := stops t rfl
    simp only [closers, List.mem_cons, List.not_mem_nil, or_false] at kind
    rcases kind with kind | kind | kind | kind <;>
      simp [Token.node?, kind, Kind.isOperation] at alone
  | define m | branch m | choice m | loop m | set m | get m =>
    have kind := stops m.1 rfl
    simp [m.2, closers] at kind

theorem nothing_of_same {d : Derivation} {rest other : List Token} (stops : Stops other)
    (same : d.tokens ++ rest = nothing.tokens ++ other) : d = nothing :=
  nothing_of_stops (same ▸ stops : Stops (d.tokens ++ rest))

/-- The derivation can be told from its tokens, whatever stands behind them. -/
def Told (d : Derivation) : Prop :=
  ∀ {e : Derivation} {rest other : List Token}, Stops rest → Stops other →
    d.tokens ++ rest = e.tokens ++ other → d = e ∧ rest = other

theorem Told.closed {d e : Derivation} (told : Told d) {k l : Kind} (here : Mark k)
    (there : Mark l) {rest other : List Token}
    (same : d.tokens ++ here.1 :: rest = e.tokens ++ there.1 :: other)
    (ends : k ∈ closers ∧ l ∈ closers := by decide) :
    d = e ∧ here.1 = there.1 ∧ rest = other := by
  obtain ⟨whole, behind⟩ := told (stops_mark here rest ends.1) (stops_mark there other ends.2) same
  exact ⟨whole, List.cons.inj behind⟩

theorem Mark.kind_eq {k l : Kind} {a : Mark k} {b : Mark l} (same : a.1 = b.1) : k = l := by
  rw [← a.2, ← b.2, same]

theorem told (d : Derivation) : Told d := by
  -- the first token decides the form, except that a branch and a choice start alike
  induction d with
  | nothing =>
    intro e rest other here there same
    cases nothing_of_same here same.symm
    exact ⟨rfl, same⟩
  | single t n alone tail ih =>
    intro e rest other here there same
    cases e with
    | nothing => cases nothing_of_same there same
    | single u m lone tail' =>
      obtain ⟨rfl, behind⟩ := List.cons.inj same
      obtain ⟨rfl, left⟩ := ih here there behind
      cases alone.symm.trans lone
      exact ⟨rfl, left⟩
    | _ => grind [tokens, Token.node?, Kind.isOperation]
  | define colon name body ends tail inner ih =>
    intro e rest other here there same
    cases e with
    | nothing => cases nothing_of_same there same
    | define colon' name' body' ends' tail' =>
      simp only [tokens, List.cons_append, List.append_assoc, List.cons.injEq] at same
      obtain ⟨first, second, behind⟩ := same
      obtain ⟨rfl, last, behind⟩ := inner.closed ends ends' behind
      obtain ⟨rfl, left⟩ := ih here there behind
      rw [Subtype.ext first, Subtype.ext second, Subtype.ext last]
      exact ⟨rfl, left⟩
    | _ => grind [tokens, Token.node?, Kind.isOperation]
  | branch opens yes ends tail inner ih =>
    intro e rest other here there same
    cases e with
    | nothing => cases nothing_of_same there same
    | branch opens' yes' ends' tail' =>
      simp only [tokens, List.cons_append, List.append_assoc, List.cons.injEq] at same
      obtain ⟨first, behind⟩ := same
      obtain ⟨rfl, last, behind⟩ := inner.closed ends ends' behind
      obtain ⟨rfl, left⟩ := ih here there behind
      rw [Subtype.ext first, Subtype.ext last]
      exact ⟨rfl, left⟩
    | choice opens' yes' alt' no' ends' tail' =>
      simp only [tokens, List.cons_append, List.append_assoc, List.cons.injEq] at same
      cases Mark.kind_eq (inner.closed ends alt' same.2).2.1
    | _ => grind [tokens, Token.node?, Kind.isOperation]
  | choice opens yes alt no ends tail inner inner' ih =>
    intro e rest other here there same
    cases e with
    | nothing => cases nothing_of_same there same
    | branch opens' yes' ends' tail' =>
      simp only [tokens, List.cons_append, List.append_assoc, List.cons.injEq] at same
      cases Mark.kind_eq (inner.closed alt ends' same.2).2.1
    | choice opens' yes' alt' no' ends' tail' =>
      simp only [tokens, List.cons_append, List.append_assoc, List.cons.injEq] at same
      obtain ⟨first, behind⟩ := same
      obtain ⟨rfl, middle, behind⟩ := inner.closed alt alt' behind
      obtain ⟨rfl, last, behind⟩ := inner'.closed ends ends' behind
      obtain ⟨rfl, left⟩ := ih here there behind
      rw [Subtype.ext first, Subtype.ext middle, Subtype.ext last]
      exact ⟨rfl, left⟩
    | _ => grind [tokens, Token.node?, Kind.isOperation]
  | loop opens body ends tail inner ih =>
    intro e rest other here there same
    cases e with
    | nothing => cases nothing_of_same there same
    | loop opens' body' ends' tail' =>
      simp only [tokens, List.cons_append, List.append_assoc, List.cons.injEq] at same
      obtain ⟨first, behind⟩ := same
      obtain ⟨rfl, last, behind⟩ := inner.closed ends ends' behind
      obtain ⟨rfl, left⟩ := ih here there behind
      rw [Subtype.ext first, Subtype.ext last]
      exact ⟨rfl, left⟩
    | _ => grind [tokens, Token.node?, Kind.isOperation]
  | set mark name tail ih =>
    intro e rest other here there same
    cases e with
    | nothing => cases nothing_of_same there same
    | set mark' name' tail' =>
      simp only [tokens, List.cons_append, List.cons.injEq] at same
      obtain ⟨first, second, behind⟩ := same
      obtain ⟨rfl, left⟩ := ih here there behind
      rw [Subtype.ext first, Subtype.ext second]
      exact ⟨rfl, left⟩
    | _ => grind [tokens, Token.node?, Kind.isOperation]
  | get mark name tail ih =>
    intro e rest other here there same
    cases e with
    | nothing => cases nothing_of_same there same
    | get mark' name' tail' =>
      simp only [tokens, List.cons_append, List.cons.injEq] at same
      obtain ⟨first, second, behind⟩ := same
      obtain ⟨rfl, left⟩ := ih here there behind
      rw [Subtype.ext first, Subtype.ext second]
      exact ⟨rfl, left⟩
    | _ => grind [tokens, Token.node?, Kind.isOperation]

theorem tokens_inj {d e : Derivation} (same : d.tokens = e.tokens) : d = e :=
  (told d stops_nil stops_nil (congrArg (· ++ []) same)).1

end Derivation
end StackLang
