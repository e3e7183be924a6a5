import StackLang.Proofs.Tree.Grammar

/-! The parser accepts exactly what has a derivation, and its tree is the tree of the derivation.
What has been read at any point is a derivation with some constructs left open. -/
namespace StackLang

/-- `m` occurs in the node, at any depth. -/
inductive Node.Within (m : Node) : Node → Prop
  | self : Within m m
  | block {n : Node} {body : List Node} (mem : n ∈ body) (inner : Within m n) :
      Within m (.block body)
  | define {n : Node} {name : Text} {body : List Node} (mem : n ∈ body) (inner : Within m n) :
      Within m (.define name body)
  | yes {n : Node} {yes no : List Node} (mem : n ∈ yes) (inner : Within m n) :
      Within m (.branch yes no)
  | no {n : Node} {yes no : List Node} (mem : n ∈ no) (inner : Within m n) :
      Within m (.branch yes no)
  | loop {n : Node} {body : List Node} (mem : n ∈ body) (inner : Within m n) :
      Within m (.loop body)

namespace Derivation

theorem isOperation_of_node? {t : Token} {n : Node} (alone : t.node? = some n) {k : Kind}
    (within : Node.Within (.op k) n) : k.isOperation := by
  unfold Token.node? at alone
  split at alone
  case h_5 =>
    split at alone
    · rename_i operation
      cases alone
      cases within
      exact operation
    · cases alone
  all_goals
    cases alone
    cases within

theorem isOperation_of_within {d : Derivation} {n : Node} (mem : n ∈ d.nodes) {k : Kind}
    (within : Node.Within (.op k) n) : k.isOperation := by
  induction d generalizing n with
  | nothing => cases mem
  | single t m alone rest ih =>
    obtain rfl | mem := List.mem_cons.1 mem
    · exact isOperation_of_node? alone within
    · exact ih mem within
  | define _ _ _ _ _ inner ih =>
    obtain rfl | mem := List.mem_cons.1 mem
    · cases within with
      | define mem within => exact inner mem within
    · exact ih mem within
  | branch _ _ _ _ inner ih =>
    obtain rfl | mem := List.mem_cons.1 mem
    · cases within with
      | yes mem within => exact inner mem within
      | no mem => cases mem
    · exact ih mem within
  | choice _ _ _ _ _ _ first second ih =>
    obtain rfl | mem := List.mem_cons.1 mem
    · cases within with
      | yes mem within => exact first mem within
      | no mem within => exact second mem within
    · exact ih mem within
  | loop _ _ _ _ inner ih =>
    obtain rfl | mem := List.mem_cons.1 mem
    · cases within with
      | loop mem within => exact inner mem within
    · exact ih mem within
  | set _ _ _ ih | get _ _ _ ih =>
    obtain rfl | mem := List.mem_cons.1 mem
    · cases within
    · exact ih mem within

end Derivation

namespace Partial

def Takes (p : Partial) (ts : List Token) (q : Partial) : Prop := ts.foldlM take p = .ok q

theorem takes_nil {p q : Partial} : p.Takes [] q ↔ p = q := by
  rw [Takes, List.foldlM_nil]
  exact Except.ok.injEq p q ▸ Iff.rfl

theorem Takes.cons {p q r : Partial} {t : Token} {ts : List Token} (first : p.take t = .ok q)
    (later : q.Takes ts r) : p.Takes (t :: ts) r := by
  rw [Takes, List.foldlM_cons, first]
  exact later

theorem Takes.append {p q r : Partial} {ts us : List Token} (first : p.Takes ts q)
    (later : q.Takes us r) : p.Takes (ts ++ us) r := by
  rw [Takes, List.foldlM_append, show ts.foldlM take p = .ok q from first]
  exact later

theorem takes_cons {p r : Partial} {t : Token} {ts : List Token} :
    p.Takes (t :: ts) r ↔ ∃ q, p.take t = .ok q ∧ q.Takes ts r := by
  constructor
  · intro taken
    rw [Takes, List.foldlM_cons] at taken
    cases first : p.take t with
    | error fault => rw [first] at taken; cases taken
    | ok q =>
      rw [first] at taken
      exact ⟨q, rfl, taken⟩
  · rintro ⟨q, first, later⟩
    exact .cons first later

theorem finish_eq_ok {p : Partial} {pos : Pos} {ns : List Node} :
    p.finish pos = .ok ns ↔ p.naming = none ∧ p.opened = [] ∧ p.body.reverse = ns := by
  unfold finish
  split <;> simp_all

theorem takeAll_eq_ok {p : Partial} {pos : Pos} {ts : List Token} {ns : List Node} :
    p.takeAll pos ts = .ok ns ↔ ∃ q, p.Takes (beforeEnd ts) q ∧
      q.naming = none ∧ q.opened = [] ∧ q.body.reverse = ns := by
  induction ts generalizing p pos with
  | nil =>
    rw [takeAll, finish_eq_ok]
    simp [beforeEnd, takes_nil]
  | cons t ts ih =>
    rw [takeAll, beforeEnd]
    by_cases eof : t.kind = .eof
    · rw [if_pos eof, List.takeWhile_cons_of_neg (by simpa using eof), finish_eq_ok]
      simp [takes_nil]
    · rw [if_neg eof, List.takeWhile_cons_of_pos (by simpa using eof)]
      simp only [takes_cons]
      cases first : p.take t with
      | error fault => simp
      | ok q =>
        rw [ih, beforeEnd]
        simp

theorem takeAll_end (p : Partial) (pos : Pos) (ts : List Token) {e : Token} (eof : e.kind = .eof)
    (us : List Token) : p.takeAll pos (ts ++ e :: us) = p.takeAll pos (ts ++ [e]) := by
  induction ts generalizing p pos with
  | nil => simp [takeAll, eof]
  | cons t ts ih =>
    simp only [List.cons_append, takeAll]
    split
    · rfl
    · cases p.take t with
      | error fault => rfl
      | ok q => exact ih q t.pos

theorem take_single {t : Token} {n : Node} (alone : t.node? = some n) (body : List Node)
    (opened : List (Opened × List Node)) :
    take { body, opened } t = .ok { body := n :: body, opened } := by
  unfold Token.node? at alone
  split at alone
  case h_5 =>
    split at alone
    · rename_i operation
      cases kind : t.kind with
      | op o =>
        cases alone
        simp [take, push, kind]
      | _ => simp [kind, Kind.isOperation] at operation
    · cases alone
  all_goals
    rename_i kind
    cases alone
    simp [take, push, kind]

theorem takes_tokens (d : Derivation) (body : List Node) (opened : List (Opened × List Node)) :
    Takes { body, opened } d.tokens { body := d.nodes.reverse ++ body, opened } := by
  -- a body is read under the construct that is open around it, hence for all `opened`
  induction d generalizing body opened with
  | nothing => rfl
  | single t n alone rest ih =>
    refine .cons (take_single alone body opened) ?_
    simpa [Derivation.nodes] using ih (n :: body) opened
  | define colon name inner ends rest within ih =>
    refine .cons (by simp only [take, colon.2]; rfl) ?_
    refine .cons (by simp only [take, Partial.name, name.2]; rfl) ?_
    refine (within _ _).append (.cons (by simp only [take, ends.2, close]; rfl) ?_)
    simpa [Derivation.nodes] using ih _ opened
  | branch opens yes ends rest within ih =>
    refine .cons (by simp only [take, opens.2]; rfl) ?_
    refine (within _ _).append (.cons (by simp only [take, ends.2, close]; rfl) ?_)
    simpa [Derivation.nodes] using ih _ opened
  | choice opens yes other no ends rest first second ih =>
    refine .cons (by simp only [take, opens.2]; rfl) ?_
    refine (first _ _).append (.cons (by simp only [take, other.2, close]; rfl) ?_)
    refine (second _ _).append (.cons (by simp only [take, ends.2, close]; rfl) ?_)
    simpa [Derivation.nodes] using ih _ opened
  | loop opens inner ends rest within ih =>
    refine .cons (by simp only [take, opens.2]; rfl) ?_
    refine (within _ _).append (.cons (by simp only [take, ends.2, close]; rfl) ?_)
    simpa [Derivation.nodes] using ih _ opened
  | set mark name rest ih | get mark name rest ih =>
    refine .cons (by simp only [take, mark.2]; rfl) ?_
    refine .cons (by simp only [take, Partial.name, name.2]; rfl) ?_
    simp only [Derivation.nodes, List.reverse_cons, List.append_assoc]
    exact ih _ opened

/-- The constructs that are open, with the tokens up to the last one's opening. -/
inductive Around : List (Opened × List Node) → List Token → Prop
  | outermost : Around [] []
  | define {opened : List (Opened × List Node)} {read : List Token} (around : Around opened read)
      (before : Derivation) (colon : Mark .colon) (name : Mark .name) :
      Around ((.define name.1.text, before.nodes.reverse) :: opened)
        (read ++ before.tokens ++ [colon.1, name.1])
  | yes {opened : List (Opened × List Node)} {read : List Token} (around : Around opened read)
      (before : Derivation) (opens : Mark .ifMark) :
      Around ((.yes, before.nodes.reverse) :: opened) (read ++ before.tokens ++ [opens.1])
  | no {opened : List (Opened × List Node)} {read : List Token} (around : Around opened read)
      (before : Derivation) (opens : Mark .ifMark) (yes : Derivation) (other : Mark .elseMark) :
      Around ((.no yes.nodes, before.nodes.reverse) :: opened)
        (read ++ before.tokens ++ opens.1 :: (yes.tokens ++ [other.1]))
  | loop {opened : List (Opened × List Node)} {read : List Token} (around : Around opened read)
      (before : Derivation) (opens : Mark .doMark) :
      Around ((.loop, before.nodes.reverse) :: opened) (read ++ before.tokens ++ [opens.1])

inductive Waits : Option Naming → List Token → Prop
  | nobody : Waits none []
  | mark (n : Naming) (t : Mark n.mark) : Waits (some n) [t.1]

/-- The tokens read so far: those around the body that is being read, those of its nodes, and a
mark without its name. -/
def Reached (p : Partial) (read : List Token) : Prop :=
  ∃ (outer : List Token) (d : Derivation) (waiting : List Token), Around p.opened outer ∧
    p.body = d.nodes.reverse ∧ Waits p.naming waiting ∧ read = outer ++ d.tokens ++ waiting

section

variable {opened : List (Opened × List Node)} {outer : List Token} (around : Around opened outer)
  (d : Derivation) {t : Token} {q : Partial}

include around

theorem Reached.nodes (more : Derivation) :
    Reached { body := more.nodes.reverse ++ d.nodes.reverse, opened }
      (outer ++ d.tokens ++ more.tokens) :=
  ⟨outer, d.append more, [], around, by simp, .nobody, by simp⟩

theorem Reached.inside : Reached { opened } outer :=
  ⟨outer, .nothing, [], around, rfl, .nobody, by simp [Derivation.tokens]⟩

theorem Reached.close (taken : close { body := d.nodes.reverse, opened } t = .ok q) :
    Reached q (outer ++ d.tokens ++ [t]) := by
  cases around with
  | outermost => cases taken
  | define around before colon name =>
    cases kind : t.kind <;> simp [Partial.close, kind] at taken
    subst taken
    simpa [Derivation.nodes, Derivation.tokens] using
      Reached.nodes around before (.define colon name d ⟨t, kind⟩ .nothing)
  | yes around before opens =>
    cases kind : t.kind <;> simp [Partial.close, kind] at taken
    case thenMark =>
      subst taken
      simpa [Derivation.nodes, Derivation.tokens] using
        Reached.nodes around before (.branch opens d ⟨t, kind⟩ .nothing)
    case elseMark =>
      subst taken
      simpa using Reached.inside (.no around before opens d ⟨t, kind⟩)
  | no around before opens yes other =>
    cases kind : t.kind <;> simp [Partial.close, kind] at taken
    subst taken
    simpa [Derivation.nodes, Derivation.tokens] using
      Reached.nodes around before (.choice opens yes other d ⟨t, kind⟩ .nothing)
  | loop around before opens =>
    cases kind : t.kind <;> simp [Partial.close, kind] at taken
    subst taken
    simpa [Derivation.nodes, Derivation.tokens] using
      Reached.nodes around before (.loop opens d ⟨t, kind⟩ .nothing)

theorem Reached.name {n : Naming} (m : Mark n.mark)
    (taken : Partial.name { body := d.nodes.reverse, opened, naming := some n } n t = .ok q) :
    Reached q (outer ++ d.tokens ++ [m.1, t]) := by
  simp only [Partial.name] at taken
  split at taken
  · rename_i kind
    cases taken
    cases n with
    | define => exact Reached.inside (.define around d m ⟨t, kind⟩)
    | set => exact Reached.nodes around d (.set m ⟨t, kind⟩ .nothing)
    | get => exact Reached.nodes around d (.get m ⟨t, kind⟩ .nothing)
  · split at taken <;> cases taken

theorem Reached.single {n : Node} (alone : t.node? = some n) :
    Reached { body := n :: d.nodes.reverse, opened } (outer ++ d.tokens ++ [t]) :=
  Reached.nodes around d (.single t n alone .nothing)

theorem Reached.waits (n : Naming) (kind : t.kind = n.mark) :
    Reached { body := d.nodes.reverse, opened, naming := some n } (outer ++ d.tokens ++ [t]) :=
  ⟨outer, d, [t], around, rfl, .mark n ⟨t, kind⟩, rfl⟩

end

theorem Reached.take {p q : Partial} {read : List Token} {t : Token} (reached : Reached p read)
    (taken : p.take t = .ok q) : Reached q (read ++ [t]) := by
  obtain ⟨body, opened, naming⟩ := p
  obtain ⟨outer, d, waiting, around, same, waits, rfl⟩ := reached
  cases same
  cases waits with
  | mark n m => simpa using Reached.name around d m taken
  | nobody =>
    rw [List.append_nil]
    cases kind : t.kind <;> simp only [Partial.take, kind] at taken
    case number | string | name | index | op =>
      cases taken
      exact Reached.single around d (by simp [Token.node?, kind, Kind.isOperation])
    case colon | arrow | atMark =>
      cases taken
      exact Reached.waits around d _ kind
    case ifMark =>
      cases taken
      exact Reached.inside (.yes around d ⟨t, kind⟩)
    case doMark =>
      cases taken
      exact Reached.inside (.loop around d ⟨t, kind⟩)
    all_goals exact Reached.close around d taken

theorem Reached.takes {p q : Partial} {read ts : List Token} (reached : Reached p read)
    (taken : p.Takes ts q) : Reached q (read ++ ts) := by
  induction ts generalizing p read with
  | nil =>
    cases takes_nil.1 taken
    simpa using reached
  | cons t ts ih =>
    obtain ⟨r, first, later⟩ := takes_cons.1 taken
    simpa using ih (reached.take first) later

end Partial

theorem parse_eq_ok {ts : List Token} {ns : List Node} :
    parse ts = .ok ns ↔ ∃ d : Derivation, d.tokens = beforeEnd ts ∧ d.nodes = ns := by
  rw [parse, Partial.takeAll_eq_ok]
  constructor
  · rintro ⟨⟨body, opened, naming⟩, taken, unnamed, closed, rfl⟩
    have start : Partial.Reached {} [] := Partial.Reached.inside .outermost
    obtain ⟨outer, d, waiting, around, same, waits, cut⟩ := start.takes taken
    cases unnamed
    cases closed
    cases around
    cases waits
    cases same
    exact ⟨d, by simpa using cut.symm, by simp⟩
  · rintro ⟨d, cut, rfl⟩
    exact ⟨_, cut ▸ Partial.takes_tokens d [] [], rfl, rfl, by simp⟩

/-- The parser accepts a list of tokens if what stands before its end has a derivation, and gives
the tree of that derivation; there is never more than one. Only operations become operation nodes,
and nothing behind the end matters. -/
theorem parse_accepts_grammar (ts : List Token) :
    (∀ ns, parse ts = .ok ns ↔ ∃ d : Derivation, d.tokens = beforeEnd ts ∧ d.nodes = ns) ∧
    (∀ d e : Derivation, d.tokens = e.tokens → d = e) ∧
    (∀ ns, parse ts = .ok ns → ∀ n ∈ ns, ∀ k, Node.Within (.op k) n → k.isOperation) ∧
    ∀ (e : Token) (us : List Token), e.kind = .eof → parse (ts ++ e :: us) = parse (ts ++ [e]) := by
  refine ⟨fun ns => parse_eq_ok, fun d e same => Derivation.tokens_inj same, ?_, ?_⟩
  · intro ns parsed n mem k within
    obtain ⟨d, _, rfl⟩ := parse_eq_ok.1 parsed
    exact Derivation.isOperation_of_within mem within
  · intro e us eof
    exact Partial.takeAll_end {} {} ts eof us

/-- A branch with one body in a definition, and a stray mark behind the end. -/
theorem parse_accepts_grammar_define :
    let ts : List Token := [{ kind := .colon }, { kind := .name, text := utf8 "f" },
      { kind := .ifMark }, { kind := .op .add }, { kind := .thenMark }, { kind := .semicolon }]
    let n : Node := .define (utf8 "f") [.branch [.op (.op .add)] []]
    (∃ d : Derivation, (d.tokens = ts ∧ d.nodes = [n]) ∧ ∀ e : Derivation, e.tokens = ts → e = d) ∧
    Kind.isOperation (.op .add) ∧
    parse (ts ++ { kind := .eof } :: [{ kind := .loopMark }]) = parse (ts ++ [{ kind := .eof }]) := by
  intro ts n
  have parsed : parse ts = .ok [n] := rfl
  have within : Node.Within (.op (.op .add)) n :=
    .define List.mem_cons_self (.yes List.mem_cons_self .self)
  obtain ⟨accepts, unique, operations, ending⟩ := parse_accepts_grammar ts
  obtain ⟨d, cut, tree⟩ := (accepts [n]).1 parsed
  exact ⟨⟨d, ⟨cut, tree⟩, fun e same => unique e d (same.trans cut.symm)⟩,
    operations [n] parsed n List.mem_cons_self _ within, ending _ _ rfl⟩

end StackLang
