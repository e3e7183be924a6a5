import StackLang.Proofs.Tree.Printable

/-! Printing undoes parsing: the text of every printable program reads as that program, and every
program that can be read is printable. -/
namespace StackLang

namespace Partial
open Node

theorem take_bare {p q : Partial} {t : Token} : p.take t = .ok q ↔ p.take t.bare = .ok q := by
  obtain ⟨kind, pos, text, num⟩ := t
  simp only [take, Token.bare]
  cases p.naming with
  | some mark =>
    cases kind with
    | name => rfl
    | _ =>
      simp only [name]
      split <;> simp
  | none =>
    cases kind with
    | eof | semicolon | elseMark | thenMark | loopMark | other =>
      simp only [close]
      repeat' split
      all_goals simp_all
    | _ => rfl

theorem finish_ok {p : Partial} {ns : List Node} (pos pos' : Pos) (done : p.finish pos = .ok ns) :
    p.finish pos' = .ok ns := by
  unfold finish at done ⊢
  split at done
  · cases done
  · cases done
  · exact done

theorem takeAll_bare {ts us : List Token} (same : ts.map Token.bare = us.map Token.bare)
    {p : Partial} {ns : List Node} (pos pos' : Pos) (done : p.takeAll pos ts = .ok ns) :
    p.takeAll pos' us = .ok ns := by
  induction ts generalizing us p pos pos' with
  | nil =>
    cases us with
    | nil => exact finish_ok pos pos' done
    | cons => cases same
  | cons t ts ih =>
    cases us with
    | nil => cases same
    | cons u us =>
      obtain ⟨head, tail⟩ := List.cons.inj same
      have kind : t.kind = u.kind := congrArg (·.kind) head
      simp only [takeAll, ← kind] at done ⊢
      split at done
      · rename_i eof
        rw [if_pos eof]
        exact finish_ok _ _ done
      · rename_i token
        rw [if_neg token]
        cases taken : p.take t with
        | error e =>
          simp [taken] at done
        | ok q =>
          have also : p.take u = .ok q := by
            rw [take_bare, ← head, ← take_bare]
            exact taken
          rw [taken] at done
          rw [also]
          exact ih tail _ _ done

theorem takeAll_cons {p q : Partial} {t : Token} {ts : List Token} {pos : Pos}
    (token : t.kind ≠ .eof) (taken : p.take t = .ok q) :
    p.takeAll pos (t :: ts) = q.takeAll t.pos ts := by
  simp only [takeAll, if_neg token, taken]

/-- Reading the tokens adds the nodes, whatever has been read and whatever is to come. -/
def Builds (ts : List Token) (ns : List Node) : Prop :=
  ∀ (before : List Node) (opened : List (Opened × List Node)) (rest : List Token),
    takeAll { body := before, opened } {} (ts ++ rest) =
      takeAll { body := ns.reverse ++ before, opened } {} rest

theorem builds_all {ns : List Node} (each : ∀ n ∈ ns, Builds n.tokens [n]) :
    Builds (tokensOfAll ns) ns := by
  induction ns with
  | nil =>
    intro before opened rest
    rfl
  | cons n ns ih =>
    intro before opened rest
    have first := each n List.mem_cons_self before opened (tokensOfAll ns ++ rest)
    have later := ih fun m mem => each m (.tail _ mem)
    rw [tokensOfAll, List.append_assoc, first, later]
    simp

theorem builds_one {t : Token} {n : Node} (place : t.pos = {}) (token : t.kind ≠ .eof)
    (taken : ∀ before opened, take { body := before, opened } t =
      .ok { body := n :: before, opened }) : Builds [t] [n] := by
  intro before opened rest
  rw [List.singleton_append, takeAll_cons token (taken before opened), place]
  rfl

/-- After a body of the construct that is open comes the token that closes it. -/
theorem takeAll_body {body before : List Node} {inner rest : List Token} {k : Kind} {o : Opened}
    {opened : List (Opened × List Node)} {p : Partial} (builds : Builds inner body)
    (closes : take { body := body.reverse, opened := (o, before) :: opened } (mark k) = .ok p)
    (token : k ≠ .eof) :
    takeAll { body := [], opened := (o, before) :: opened } {} (inner ++ [mark k] ++ rest) =
      p.takeAll {} rest := by
  rw [List.append_assoc, builds, List.append_nil, List.singleton_append,
    takeAll_cons token closes]
  rfl

theorem builds_tokens {n : Node} (printable : Printable n) : Builds n.tokens [n] := by
  induction printable with
  | number | string | call => exact builds_one rfl (by simp [named]) fun before opened => rfl
  | @op kind operation =>
    cases kind with
    | op o => exact builds_one rfl (by simp [mark]) fun before opened => rfl
    | _ => cases operation
  | @index depth least most =>
    refine builds_one rfl (by simp) fun before opened => ?_
    have value : (Int32.ofInt depth).toInt = depth :=
      Int32.toInt_ofInt_of_le (by omega) (by omega)
    simp only [take, push, value]
  | @define name body _ _ inner =>
    intro before opened rest
    rw [tokens, List.cons_append, List.cons_append, takeAll_cons (by simp [mark]) rfl,
      takeAll_cons (by simp [named]) rfl]
    refine (takeAll_body (builds_all inner) rfl (by simp)).trans ?_
    simp [named]
  | @branch yes no _ _ first second =>
    intro before opened rest
    -- without a second body its mark is not written either
    cases no with
    | nil =>
      rw [tokens, List.cons_append, takeAll_cons (by simp [mark]) rfl]
      refine (takeAll_body (builds_all first) rfl (by simp)).trans ?_
      simp
    | cons n ns =>
      have split : tokens (.branch yes (n :: ns)) ++ rest = mark .ifMark :: (tokensOfAll yes ++
          [mark .elseMark] ++ (tokensOfAll (n :: ns) ++ [mark .thenMark] ++ rest)) := by
        simp [tokens]
      rw [split, takeAll_cons (by simp [mark]) rfl]
      refine (takeAll_body (builds_all first) rfl (by simp)).trans ?_
      refine (takeAll_body (builds_all second) rfl (by simp)).trans ?_
      simp
  | loop _ inner =>
    intro before opened rest
    rw [tokens, List.cons_append, takeAll_cons (by simp [mark]) rfl]
    refine (takeAll_body (builds_all inner) rfl (by simp)).trans ?_
    simp
  | set | get =>
    intro before opened rest
    rw [tokens, List.cons_append, List.cons_append, takeAll_cons (by simp [mark]) rfl,
      takeAll_cons (by simp [named]) rfl]
    rfl

end Partial

theorem parse_tokens {ns : List Node} (printable : ∀ n ∈ ns, n.Printable) {ts : List Token}
    (same : ts.map Token.bare = (Node.tokensOfAll ns).map Token.bare ++ [{ kind := .eof }]) :
    parse ts = .ok ns := by
  have built : parse (Node.tokensOfAll ns ++ [{ kind := .eof }]) = .ok ns := by
    have all := Partial.builds_all fun n mem => Partial.builds_tokens (printable n mem)
    refine (all [] [] _).trans ?_
    simp [Partial.takeAll, Partial.finish]
  refine Partial.takeAll_bare ?_ _ _ built
  rw [same, List.map_append]
  rfl

open Node

def Opened.Sound : Opened → Prop
  | define name => IsName name
  | no before => ∀ n ∈ before, Printable n
  | _ => True

namespace Partial

structure Sound (p : Partial) : Prop where
  body : ∀ n ∈ p.body, Printable n
  opened : ∀ o ∈ p.opened, o.1.Sound ∧ ∀ n ∈ o.2, Printable n

theorem Sound.push {p : Partial} (sound : p.Sound) {n : Node} (printable : Printable n) :
    (p.push n).Sound :=
  ⟨List.forall_mem_cons.2 ⟨printable, sound.body⟩, sound.opened⟩

theorem Sound.enter {p : Partial} (sound : p.Sound) {o : Opened} (inner : o.Sound) :
    (p.enter o).Sound :=
  ⟨by simp [Partial.enter], List.forall_mem_cons.2 ⟨⟨inner, sound.body⟩, sound.opened⟩⟩

theorem Sound.name {p q : Partial} (sound : p.Sound) {mark : Naming} {t : Token}
    (genuine : t.Genuine) (taken : p.name mark t = .ok q) : q.Sound := by
  have free : Sound { p with naming := none } := ⟨sound.body, sound.opened⟩
  simp only [Partial.name] at taken
  split at taken
  · rename_i kind
    have isName : IsName t.text := by simpa only [Token.Genuine, kind] using genuine
    cases taken
    cases mark with
    | define => exact free.enter isName
    | set => exact free.push (.set isName)
    | get => exact free.push (.get isName)
  · split at taken <;> cases taken

theorem Sound.close {p q : Partial} (sound : p.Sound) {t : Token} (taken : p.close t = .ok q) :
    q.Sound := by
  have body : ∀ n ∈ p.body.reverse, Printable n := fun n mem => sound.body n (List.mem_reverse.1 mem)
  have inner (o : Opened) (before : List Node) (outer : List (Opened × List Node))
      (held : p.opened = (o, before) :: outer) :
      (o.Sound ∧ ∀ n ∈ before, Printable n) ∧
        ∀ o ∈ outer, o.1.Sound ∧ ∀ n ∈ o.2, Printable n := by
    have opened := sound.opened
    rw [held] at opened
    exact List.forall_mem_cons.1 opened
  simp only [Partial.close] at taken
  split at taken
  · rename_i held _
    obtain ⟨⟨isName, before⟩, outer⟩ := inner _ _ _ held
    cases taken
    exact ⟨List.forall_mem_cons.2 ⟨.define isName body, before⟩, outer⟩
  · rename_i held _
    obtain ⟨⟨_, before⟩, outer⟩ := inner _ _ _ held
    cases taken
    exact ⟨by simp, List.forall_mem_cons.2 ⟨⟨body, before⟩, outer⟩⟩
  · rename_i held _
    obtain ⟨⟨_, before⟩, outer⟩ := inner _ _ _ held
    cases taken
    exact ⟨List.forall_mem_cons.2 ⟨.branch body (by simp), before⟩, outer⟩
  · rename_i held _
    obtain ⟨⟨yes, before⟩, outer⟩ := inner _ _ _ held
    cases taken
    exact ⟨List.forall_mem_cons.2 ⟨.branch yes body, before⟩, outer⟩
  · rename_i held _
    obtain ⟨⟨_, before⟩, outer⟩ := inner _ _ _ held
    cases taken
    exact ⟨List.forall_mem_cons.2 ⟨.loop body, before⟩, outer⟩
  · cases taken

theorem Sound.take {p q : Partial} (sound : p.Sound) {t : Token} (genuine : t.Genuine)
    (taken : p.take t = .ok q) : q.Sound := by
  cases naming : p.naming with
  | some mark =>
    simp only [Partial.take, naming] at taken
    exact sound.name genuine taken
  | none =>
    cases kind : t.kind <;> simp only [Partial.take, naming, kind] at taken <;>
      simp only [Token.Genuine, kind] at genuine
    case number => cases taken; exact sound.push (.number _)
    case string => cases taken; exact sound.push (.string genuine)
    case name => cases taken; exact sound.push (.call genuine)
    case index => cases taken; exact sound.push (.index genuine.1 genuine.2)
    case op => cases taken; exact sound.push (.op rfl)
    case colon | arrow | atMark => cases taken; exact ⟨sound.body, sound.opened⟩
    case ifMark | doMark => cases taken; exact sound.enter trivial
    all_goals exact sound.close taken

theorem Sound.takeAll {p : Partial} (sound : p.Sound) {ts : List Token}
    (genuine : ∀ t ∈ ts, t.Genuine) {pos : Pos} {ns : List Node}
    (done : p.takeAll pos ts = .ok ns) : ∀ n ∈ ns, Printable n := by
  have finished {q : Partial} (whole : q.Sound) {pos : Pos} (done : q.finish pos = .ok ns) :
      ∀ n ∈ ns, Printable n := by
    unfold finish at done
    split at done
    · cases done
    · cases done
    · cases done
      exact fun n mem => whole.body n (List.mem_reverse.1 mem)
  induction ts generalizing p pos with
  | nil => exact finished sound done
  | cons t ts ih =>
    simp only [Partial.takeAll] at done
    split at done
    · exact finished sound done
    · split at done
      · cases done
      · rename_i q taken
        exact ih (sound.take (genuine t List.mem_cons_self) taken)
          (fun u mem => genuine u (.tail _ mem)) done

end Partial

theorem parse_printable {src : Text} {ts : List Token} {ns : List Node}
    (lexed : lex src = .ok ts) (parsed : parse ts = .ok ns) : ∀ n ∈ ns, Printable n := by
  have empty : Partial.Sound {} := ⟨by simp, by simp⟩
  exact empty.takeAll (lex_genuine lexed) parsed

theorem parse_source {ns : List Node} (printable : ∀ n ∈ ns, Printable n) :
    ∃ text ts, (block ns).source? = some text ∧ lex text = .ok ts ∧ parse ts = .ok ns := by
  have spelled := spelled_tokensOfAll fun n mem => spelled_tokens (printable n mem)
  obtain ⟨ts, lexed, same⟩ := lex_spelled spelled
  exact ⟨_, ts, source?_block printable, lexed, parse_tokens printable same⟩

/-- The text of a printable program is read back as that program, only printable programs are
read, and so whatever has been read can be printed and read again. -/
theorem printing_undoes_parsing :
    (∀ ns : List Node, (∀ n ∈ ns, Printable n) →
      ∃ text ts, (block ns).source? = some text ∧ lex text = .ok ts ∧ parse ts = .ok ns) ∧
    (∀ (src : Text) (ts : List Token) (ns : List Node), lex src = .ok ts → parse ts = .ok ns →
      (∀ n ∈ ns, Printable n) ∧
      ∃ text us, (block ns).source? = some text ∧ lex text = .ok us ∧ parse us = .ok ns) := by
  refine ⟨fun ns printable => parse_source printable, fun src ts ns lexed parsed => ?_⟩
  have printable := parse_printable lexed parsed
  exact ⟨printable, parse_source printable⟩

/-- A definition with a negative number, bytes that are no text, an empty branch and a loop. -/
theorem printing_undoes_parsing_define :
    ∃ text ts, (block [.define (utf8 "f_1") [.number (-7), .string [0xC3, 0x0A],
      .branch [] [.index 4], .loop [.op (.op .sub)]], .set (utf8 "x")]).source? = some text ∧
      lex text = .ok ts ∧ parse ts = .ok [.define (utf8 "f_1") [.number (-7), .string [0xC3, 0x0A],
        .branch [] [.index 4], .loop [.op (.op .sub)]], .set (utf8 "x")] := by
  apply printing_undoes_parsing.1
  have name : IsName (utf8 "f_1") ∧ IsName (utf8 "x") := by decide
  have index : ∀ n ∈ [Node.index 4], Printable n :=
    List.forall_mem_singleton.2 (.index (by decide) (by decide))
  have sub : ∀ n ∈ [Node.op (.op .sub)], Printable n := List.forall_mem_singleton.2 (.op rfl)
  refine List.forall_mem_cons.2 ⟨.define name.1 ?_, List.forall_mem_singleton.2 (.set name.2)⟩
  simp only [List.forall_mem_cons]
  exact ⟨.number _, .string (by decide), .branch (by simp) index, .loop sub, by simp⟩

end StackLang
