import StackLang.Proofs.Machine.Below
import StackLang.Proofs.Output.Delivery

/-! Primitives and the output. A primitive asks the output for one thing at most, at its very end,
and all that it learns is whether that went wrong. -/
namespace StackLang

def Stop.IsWriting : Stop → Prop
  | .fault ⟨_, .writing _⟩ => True
  | _ => False

namespace Bench

/-- On this stack the action has nothing to do with the output. -/
inductive Blind {α : Type} (act : Action α) (stack : List Entity) : Prop
  | ends (a : α) (rest : List Entity) (done : ∀ out, act ⟨stack, out⟩ = .ok a ⟨rest, out⟩)
  | stops (stop : Stop) (rest : List Entity)
    (stopped : ∀ out, act ⟨stack, out⟩ = .error stop ⟨rest, out⟩) (other : ¬ stop.IsWriting)

/-- On this stack the action has nothing to do with the output, or ends with a request and reports
the answer. -/
inductive Asks (act : Action Unit) (stack : List Entity) : Prop
  | blind (blind : Blind act stack)
  | request (op : Text) (rest : List Entity) (r : Request)
    (asked : ∀ out, act ⟨stack, out⟩ = report op rest (out.serve r))

section

variable {α β : Type} {act : Action α} {stack : List Entity}

theorem bind_of_ok {next : α → Action β} {a : α} {b c : Bench} (done : act b = .ok a c) :
    (act >>= next) b = next a c := by
  change EStateM.bind act next b = _
  unfold EStateM.bind
  rw [done]

theorem bind_of_error {next : α → Action β} {stop : Stop} {b c : Bench}
    (stopped : act b = .error stop c) : (act >>= next) b = .error stop c := by
  change EStateM.bind act next b = _
  unfold EStateM.bind
  rw [stopped]

theorem Blind.congr {other : Action α} {stack' : List Entity} (blind : Blind other stack')
    (same : ∀ out, act ⟨stack, out⟩ = other ⟨stack', out⟩) : Blind act stack := by
  cases blind with
  | ends a rest done => exact .ends a rest fun out => (same out).trans (done out)
  | stops stop rest stopped unlike =>
    exact .stops stop rest (fun out => (same out).trans (stopped out)) unlike

theorem Asks.congr {act other : Action Unit} {stack' : List Entity} (asks : Asks other stack')
    (same : ∀ out, act ⟨stack, out⟩ = other ⟨stack', out⟩) : Asks act stack := by
  cases asks with
  | blind blind => exact .blind (blind.congr same)
  | request op rest r asked => exact .request op rest r fun out => (same out).trans (asked out)

theorem Blind.bind {next : α → Action β} (first : Blind act stack)
    (second : ∀ a rest, Blind (next a) rest) : Blind (act >>= next) stack := by
  cases first with
  | ends a rest done => exact (second a rest).congr fun out => bind_of_ok (done out)
  | stops stop rest stopped other =>
    exact .stops stop rest (fun out => bind_of_error (stopped out)) other

theorem Blind.asks {next : α → Action Unit} (first : Blind act stack)
    (second : ∀ a rest, Asks (next a) rest) : Asks (act >>= next) stack := by
  cases first with
  | ends a rest done => exact (second a rest).congr fun out => bind_of_ok (done out)
  | stops stop rest stopped other =>
    exact .blind (.stops stop rest (fun out => bind_of_error (stopped out)) other)

end

theorem blind_push (e : Entity) (stack : List Entity) : Blind (push e) stack :=
  .ends () (e :: stack) fun _ => rfl

theorem blind_literal (text : Text) (stack : List Entity) :
    Blind (Interpreter.literal text) stack := by
  let codes := text.glyphs.map fun g => Entity.number (.ofNat g.shown.toNat)
  exact .ends () (.number (.ofNat codes.length) :: codes.reverseAux stack) fun _ => rfl

theorem blind_popNumber (op : Text) (stack : List Entity) : Blind (popNumber op) stack := by
  cases stack with
  | nil => exact .stops _ [] (fun _ => rfl) id
  | cons e rest =>
    cases e with
    | number n => exact .ends n rest fun _ => rfl
    | _ => exact .stops _ rest (fun _ => rfl) id

theorem blind_pop (op : Text) (stack : List Entity) : Blind (Interpreter.pop op) stack := by
  cases stack with
  | nil => exact .stops _ [] (fun _ => rfl) id
  | cons e rest => exact .ends e rest fun _ => rfl

theorem blind_invert (stack : List Entity) : Blind invert stack := by
  rw [invert_eq]
  exact (blind_popNumber _ stack).bind fun n rest => blind_push _ rest

theorem blind_dup (stack : List Entity) : Blind dup stack := by
  cases stack with
  | nil => exact .stops _ [] (fun _ => rfl) id
  | cons e rest => exact .ends () _ fun _ => rfl

theorem blind_swap (stack : List Entity) : Blind swap stack := by
  match stack with
  | [] | [_] => exact .stops (.fault ⟨Op.swap.name, .lacking 2 _⟩) _ (fun _ => rfl) id
  | _ :: _ :: _ => exact .ends () _ fun _ => rfl

theorem blind_drop (stack : List Entity) : Blind drop stack := by
  cases stack with
  | nil => exact .stops _ [] (fun _ => rfl) id
  | cons e rest => exact .ends () rest fun _ => rfl

theorem arith_fails {op : Op} {m n : Int32} {trouble : Trouble}
    (failed : arith op m n = some (.error trouble)) : trouble = .divideByZero := by
  cases op with
  | div | mod =>
    simp only [arith] at failed
    split at failed <;> cases failed
    rfl
  | _ => cases failed

theorem combine_fails {op : Op} {x y : Entity} {trouble : Trouble}
    (failed : combine op x y = .error trouble) (name : Text) :
    ¬ (Stop.fault ⟨name, trouble⟩).IsWriting := by
  unfold combine at failed
  split at failed
  · cases failed
  · cases failed
  · cases failed
  · rename_i m n _ _
    cases computed : arith op m n with
    | none =>
      rw [computed] at failed
      cases failed
      exact id
    | some result =>
      rw [computed] at failed
      subst failed
      cases arith_fails computed
      exact id
  · cases failed
    exact id

theorem blind_binary (op : Op) (stack : List Entity) : Blind (binary op) stack := by
  match stack with
  | [] | [_] => exact .stops (.fault ⟨op.name, .lacking 2 _⟩) _ (fun _ => rfl) id
  | y :: x :: rest =>
    cases combined : combine op x y with
    | ok e => exact .ends () (e :: rest) fun out => by simp only [binary, combined]
    | error trouble =>
      have failed (out : Output) : binary op ⟨y :: x :: rest, out⟩ =
          .error (.fault ⟨op.name, trouble⟩) ⟨rest, out⟩ := by
        simp only [binary, combined]
        rfl
      exact .stops _ rest failed (combine_fails combined op.name)

theorem blind_takeCodes (op : Text) (n : Nat) (codes : List Int32) (stack : List Entity) :
    Blind (takeCodes op n codes) stack := by
  induction n generalizing codes stack with
  | zero => exact .ends codes stack fun _ => rfl
  | succ n ih =>
    rw [takeCodes_succ]
    refine (blind_popNumber op stack).bind fun code rest => ?_
    by_cases valid : isCode code = true
    · rw [if_pos valid]
      exact ih (code :: codes) rest
    · rw [if_neg valid]
      exact .stops _ rest (fun _ => rfl) id

theorem asks_write (op : Op) (data : Text) (stack : List Entity) : Asks (write op data) stack :=
  .request op.name stack (.text data) fun _ => rfl

theorem asks_emit (stack : List Entity) : Asks emit stack := by
  cases stack with
  | nil => exact .blind (.stops _ [] (fun _ => rfl) id)
  | cons e rest =>
    cases emitted : e.emitted? with
    | some data =>
      refine .request Op.emit.name rest (.text data) fun out => ?_
      simp only [emit, emitted]
      rfl
    | none =>
      refine .blind (.stops .broken rest (fun out => ?_) id)
      simp only [emit, emitted]

theorem asks_spell (op : Text) (n : Int32) (stack : List Entity) : Asks (spell op n) stack := by
  by_cases negative : n < 0
  · refine .blind (.stops (.fault ⟨op, .invalidLength n⟩) stack (fun out => ?_) id)
    simp only [spell, if_pos negative]
    rfl
  by_cases short : (stack.take n.toInt.toNat).length < n.toInt.toNat
  · refine .blind ?_
    refine .stops (.fault ⟨op, .lacking n.toInt.toNat stack.length⟩) stack (fun out => ?_) id
    simp only [spell, if_neg negative, if_pos short]
    rfl
  have codes : Asks (takeCodes op n.toInt.toNat [] >>= putCodes op) stack :=
    (blind_takeCodes op _ [] stack).asks fun codes rest =>
      .request op rest (.codes codes) fun _ => rfl
  have same (out : Output) : spell op n ⟨stack, out⟩ =
      (takeCodes op n.toInt.toNat [] >>= putCodes op) ⟨stack, out⟩ := by
    simp only [spell, if_neg negative, if_neg short]
  exact codes.congr same

theorem asks_perform (op : Op) (stack : List Entity) : Asks (perform op) stack := by
  cases op with
  | invert => exact .blind (blind_invert stack)
  | dup => exact .blind (blind_dup stack)
  | swap => exact .blind (blind_swap stack)
  | drop => exact .blind (blind_drop stack)
  | emit => exact asks_emit stack
  | puts =>
    rw [perform, puts_eq]
    exact (blind_popNumber _ stack).asks fun n rest => asks_spell _ n rest
  | cr => exact asks_write .cr _ stack
  | _ =>
    rw [perform_binary rfl]
    exact .blind (blind_binary _ stack)

theorem asks_execute (kind : Kind) (stack : List Entity) : Asks (execute kind) stack := by
  cases kind with
  | op o => exact asks_perform o stack
  | _ => exact .blind (.stops _ stack (fun _ => rfl) id)

end Bench
end StackLang
