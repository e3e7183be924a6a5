import StackLang.Failure
import StackLang.Proofs.Tree.Faults
import StackLang.Proofs.Tree.Acceptance

/-! Which tokens can still become a program. Whatever has been taken can be finished, by closing
what is open; a fault stands at the first token that rules out every way to go on. -/
namespace StackLang

/-- With some tokens behind them, `ts` are a program. -/
def Extendable (ts : List Token) : Prop := ∃ more ns, parse (ts ++ more) = .ok ns

/-- Token `i` of `ts` is `t`, and `t` is the first that no program has there. -/
structure FirstImpossible (ts : List Token) (i : Nat) (t : Token) : Prop where
  there : ts[i]? = some t
  before : Extendable (ts.take i)
  upTo : ¬ Extendable (ts.take (i + 1))

/-- The fault is that `ts` stop too early: there is no end among them, and more could follow. -/
structure StopsEarly (ts : List Token) (e : ParseFault) : Prop where
  endless : ∀ t ∈ ts, t.kind ≠ .eof
  last : ∃ t, ts.getLast? = some t ∧ e.pos = t.pos
  missing : (∃ mark, e.trouble = .nameMissing mark) ∨ ∃ ends, e.trouble = .unfinished ends
  extendable : Extendable ts
  refused : ∀ ns, parse ts ≠ .ok ns

/-- The mark that ends the construct as it stands; a branch needs no second body. -/
def Opened.closing : Opened → Kind
  | define _ => .semicolon
  | yes | no _ => .thenMark
  | loop => .loopMark

namespace Partial

theorem take_closing (o : Opened) (before body : List Node) (outer : List (Opened × List Node)) :
    ∃ n, take { body, opened := (o, before) :: outer } { kind := o.closing } =
      .ok { body := n :: before, opened := outer } := by
  cases o <;> exact ⟨_, rfl⟩

theorem takes_closing (body : List Node) (opened : List (Opened × List Node)) :
    ∃ ns, Takes { body, opened } (opened.map fun o => { kind := o.1.closing }) { body := ns } := by
  induction opened generalizing body with
  | nil => exact ⟨body, takes_nil.2 rfl⟩
  | cons o outer ih =>
    obtain ⟨n, closed⟩ := take_closing o.1 o.2 body outer
    obtain ⟨ns, later⟩ := ih (n :: o.2)
    exact ⟨ns, .cons closed later⟩

/-- A name comes first if a mark waits for one, since that may open a construct. -/
theorem exists_completion (p : Partial) : ∃ more ns, p.Takes more { body := ns } := by
  obtain ⟨body, opened, naming⟩ := p
  cases naming with
  | none =>
    obtain ⟨ns, closed⟩ := takes_closing body opened
    exact ⟨_, ns, closed⟩
  | some mark =>
    obtain ⟨q, named, free⟩ : ∃ q, take { body, opened, naming := some mark } { kind := .name } =
        .ok q ∧ q.naming = none := by
      cases mark <;> exact ⟨_, rfl, rfl⟩
    obtain ⟨body, opened, naming⟩ := q
    cases free
    obtain ⟨ns, closed⟩ := takes_closing body opened
    exact ⟨_, ns, .cons named closed⟩

theorem take_not_eof {p q : Partial} {t : Token} (taken : p.take t = .ok q) : t.kind ≠ .eof := by
  intro eof
  unfold take at taken
  split at taken
  · rename_i mark waits
    simp only [name, eof] at taken
    split at taken <;> cases taken
  · simp [close, eof] at taken

theorem Takes.not_eof {p q : Partial} {ts : List Token} (taken : p.Takes ts q) :
    ∀ t ∈ ts, t.kind ≠ .eof := by
  induction ts generalizing p with
  | nil => simp
  | cons t ts ih =>
    obtain ⟨r, first, later⟩ := takes_cons.1 taken
    exact List.forall_mem_cons.2 ⟨take_not_eof first, ih later⟩

def lastPlace (start : Pos) (ts : List Token) : Pos := (ts.getLast?.map Token.pos).getD start

theorem lastPlace_cons (start : Pos) (t : Token) (ts : List Token) :
    lastPlace start (t :: ts) = lastPlace t.pos ts := by
  cases last : ts.getLast? <;> simp [lastPlace, List.getLast?_cons, last]

theorem Takes.takeAll {p q : Partial} {ts : List Token} (taken : p.Takes ts q) (start : Pos)
    (us : List Token) : p.takeAll start (ts ++ us) = q.takeAll (lastPlace start ts) us := by
  induction ts generalizing p start with
  | nil =>
    cases takes_nil.1 taken
    rfl
  | cons t ts ih =>
    obtain ⟨r, first, later⟩ := takes_cons.1 taken
    rw [List.cons_append, Partial.takeAll, if_neg (take_not_eof first), first, lastPlace_cons]
    exact ih later t.pos

theorem extendable_of_takes {q : Partial} {ts : List Token} (taken : Takes {} ts q) :
    Extendable ts := by
  obtain ⟨more, ns, finished⟩ := q.exists_completion
  refine ⟨more, ns.reverse, ?_⟩
  have whole := (taken.append finished).takeAll {} []
  rw [List.append_nil] at whole
  exact whole

def Refuses (p : Partial) (t : Token) (e : ParseFault) : Prop :=
  ∀ last us, p.takeAll last (t :: us) = .error e

theorem refuses_or_takes {p : Partial} {last : Pos} {t : Token} {us : List Token} {e : ParseFault}
    (failed : p.takeAll last (t :: us) = .error e) :
    (p.Refuses t e ∧ e.pos = t.pos) ∨
      ∃ q, p.take t = .ok q ∧ q.takeAll t.pos us = .error e := by
  rw [takeAll] at failed
  by_cases eof : t.kind = .eof
  · rw [if_pos eof] at failed
    refine .inl ⟨fun last us => ?_, finish_fault failed⟩
    rw [takeAll, if_pos eof, failed]
  · rw [if_neg eof] at failed
    cases first : p.take t with
    | ok q =>
      rw [first] at failed
      exact .inr ⟨q, rfl, failed⟩
    | error f =>
      rw [first] at failed
      cases failed
      refine .inl ⟨fun last us => ?_, take_fault first⟩
      rw [takeAll, if_neg eof, first]

theorem refused_or_ended {p : Partial} {last : Pos} {ts : List Token} {e : ParseFault}
    (failed : p.takeAll last ts = .error e) :
    (∃ before t after q, ts = before ++ t :: after ∧ p.Takes before q ∧ q.Refuses t e ∧
      e.pos = t.pos) ∨
    ∃ q, p.Takes ts q ∧ q.finish (lastPlace last ts) = .error e := by
  induction ts generalizing p last with
  | nil => exact .inr ⟨p, takes_nil.2 rfl, failed⟩
  | cons t ts ih =>
    rcases refuses_or_takes failed with ⟨refuses, place⟩ | ⟨q, first, later⟩
    · exact .inl ⟨[], t, ts, p, rfl, takes_nil.2 rfl, refuses, place⟩
    · rcases ih later with ⟨before, u, after, r, rfl, taken, refused⟩ | ⟨r, taken, ended⟩
      · exact .inl ⟨t :: before, u, after, r, rfl, .cons first taken, refused⟩
      · exact .inr ⟨r, .cons first taken, by rwa [lastPlace_cons]⟩

theorem Refuses.firstImpossible {q : Partial} {before : List Token} {t : Token} {e : ParseFault}
    (refuses : q.Refuses t e) (taken : Takes {} before q) (after : List Token) :
    FirstImpossible (before ++ t :: after) before.length t where
  there := by simp
  before := by
    rw [List.take_left]
    exact extendable_of_takes taken
  upTo := by
    have upTo : (before ++ t :: after).take (before.length + 1) = before ++ [t] := by
      rw [List.take_length_add_append, List.take_succ_cons, List.take_zero]
    rintro ⟨more, ns, accepted⟩
    rw [upTo, List.append_assoc, parse, taken.takeAll, List.singleton_append, refuses] at accepted
    cases accepted

theorem finish_trouble {p : Partial} {pos : Pos} {e : ParseFault}
    (failed : p.finish pos = .error e) :
    (∃ mark, e.trouble = .nameMissing mark) ∨ ∃ ends, e.trouble = .unfinished ends := by
  unfold finish at failed
  split at failed
  · cases failed
    exact .inl ⟨_, rfl⟩
  · cases failed
    exact .inr ⟨_, rfl⟩
  · cases failed

theorem stopsEarly {q : Partial} {ts : List Token} {e : ParseFault} (taken : Takes {} ts q)
    (failed : q.finish (lastPlace {} ts) = .error e) : StopsEarly ts e where
  endless := taken.not_eof
  last := by
    cases last : ts.getLast? with
    | some t => exact ⟨t, rfl, by rw [finish_fault failed, lastPlace, last]; rfl⟩
    | none =>
      -- nothing at all is a program
      cases List.getLast?_eq_none_iff.1 last
      cases takes_nil.1 taken
      cases failed
  missing := finish_trouble failed
  extendable := extendable_of_takes taken
  refused := by
    intro ns accepted
    have whole := taken.takeAll {} []
    rw [List.append_nil] at whole
    rw [parse, whole, takeAll, failed] at accepted
    cases accepted

end Partial

theorem firstImpossible_or_stopsEarly {ts : List Token} {e : ParseFault}
    (failed : parse ts = .error e) :
    (∃ i t, FirstImpossible ts i t ∧ e.pos = t.pos) ∨ StopsEarly ts e := by
  rcases Partial.refused_or_ended failed with
    ⟨before, t, after, q, rfl, taken, refuses, place⟩ | ⟨q, taken, ended⟩
  · exact .inl ⟨before.length, t, refuses.firstImpossible taken after, place⟩
  · exact .inr (Partial.stopsEarly taken ended)

theorem SplitsInto.has_eof {before src : Text} {ts : List Token} (splits : SplitsInto before src ts) :
    ∃ t ∈ ts, t.kind = .eof := by
  induction splits with
  | ended => exact ⟨_, List.mem_cons_self, rfl⟩
  | more _ _ _ ih =>
    obtain ⟨t, mem, eof⟩ := ih
    exact ⟨t, .tail _ mem, eof⟩

/-- The tokens of a source hold their end, so one of them is the culprit. -/
theorem firstImpossible_of_lex {src : Text} {ts : List Token} {e : ParseFault}
    (lexed : lex src = .ok ts) (failed : parse ts = .error e) :
    ∃ i t, FirstImpossible ts i t ∧ e.pos = t.pos := by
  rcases firstImpossible_or_stopsEarly failed with found | early
  · exact found
  · obtain ⟨t, mem, eof⟩ := (splits_of_lex lexed).has_eof
    exact absurd eof (early.endless t mem)

/-- A fault of the parser points at the first token that no program has there, the tokens before it
being those of some program. Only if the tokens stop without an end, and too early, it points at the
last of them; the tokens of a source never do. -/
theorem parse_fault_at_first_impossible (ts : List Token) (e : ParseFault)
    (failed : parse ts = .error e) :
    (Failure.ofParse e).stage = .parse ∧
    ((∃ i t, FirstImpossible ts i t ∧ e.pos = t.pos) ∨ StopsEarly ts e) ∧
    ∀ src, lex src = .ok ts → ∃ i t, FirstImpossible ts i t ∧ e.pos = t.pos :=
  ⟨rfl, firstImpossible_or_stopsEarly failed, fun _ lexed => firstImpossible_of_lex lexed failed⟩

/-- A definition is ended inside a branch that is still open. -/
theorem parse_fault_at_first_impossible_semicolon :
    let ts : List Token := [{ kind := .colon, pos := ⟨1, 1⟩ },
      { kind := .name, pos := ⟨1, 3⟩, text := utf8 "w" }, { kind := .ifMark, pos := ⟨1, 5⟩ },
      { kind := .semicolon, pos := ⟨1, 8⟩ }, { kind := .eof, pos := ⟨1, 9⟩ }]
    let e : ParseFault := ⟨⟨1, 8⟩, .unexpected .semicolon⟩
    lex (utf8 ": w IF ;") = .ok ts ∧ parse ts = .error e ∧ (Failure.ofParse e).stage = .parse ∧
      ∃ i t, FirstImpossible ts i t ∧ e.pos = t.pos := by
  intro ts e
  have lexed : lex (utf8 ": w IF ;") = .ok ts := by decide +kernel
  have failed : parse ts = .error e := rfl
  obtain ⟨stage, -, culprit⟩ := parse_fault_at_first_impossible ts e failed
  exact ⟨lexed, failed, stage, culprit _ lexed⟩

end StackLang
