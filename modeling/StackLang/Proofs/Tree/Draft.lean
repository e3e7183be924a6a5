import StackLang.Tree.Outline

/-! Drafting a tree gives its outline. The one place for finished parts is overwritten by every node
inside, but a node takes what it needs before the next is begun, and leaves its own part last; what
was held before makes no difference. -/
namespace StackLang.Node
open Drafting

theorem outlines?_cons_eq_some {n : Node} {ns : List Node} {ys : List Yaml} :
    outlines? (n :: ns) = some ys ↔
      ∃ z zs, n.outline? = some z ∧ outlines? ns = some zs ∧ z :: zs = ys := by
  simp [outlines?, Option.bind_eq_some_iff]

theorem isEmpty_outlines? {ns : List Node} {ys : List Yaml} (outlined : outlines? ns = some ys) :
    ys.isEmpty = ns.isEmpty := by
  cases ns with
  | nil =>
    cases outlined
    rfl
  | cons n ns =>
    obtain ⟨z, zs, -, -, rfl⟩ := outlines?_cons_eq_some.1 outlined
    rfl

theorem draftAll_bind {α : Type} {ns : List Node} {held : Option Yaml}
    (drafted : draftAll ns held = (outlines? ns).map fun ys => (ys, ys.getLast?.or held))
    (next : List Yaml → Drafting α) :
    (draftAll ns >>= next) held = (outlines? ns).bind fun ys => next ys (ys.getLast?.or held) := by
  change (draftAll ns held).bind _ = _
  rw [drafted, Option.bind_map]
  rfl

mutual

/-- A node leaves its outline, whatever was held before it. -/
theorem draft_eq : ∀ (n : Node) (held : Option Yaml),
    n.draft held = n.outline?.map fun y => ((), some y)
  | number _, _ | string _, _ | op _, _ | call _, _ | index _, _ | set _, _ | get _, _
  | hole, _ => rfl
  | block body, held | define _ body, held | loop body, held => by
    rw [draft, draftAll_bind (draftAll_eq body held), outline?]
    cases outlines? body <;> rfl
  | branch yes no, held => by
    have second := draftAll_eq no
    rw [draft, draftAll_bind (draftAll_eq yes held), outline?]
    cases outlines? yes with
    | none => rfl
    | some ys =>
      cases empty : no.isEmpty with
      | true =>
        cases List.isEmpty_iff.1 empty
        rfl
      | false =>
        simp only [Bool.false_eq_true, if_false, Option.bind_some]
        rw [draftAll_bind (second _)]
        cases outlined : outlines? no with
        | none => rfl
        | some zs =>
          have some : zs.isEmpty = false := (isEmpty_outlines? outlined).trans empty
          simp only [Option.bind_some, Option.map_some, branches, some]
          rfl

theorem draftAll_eq : ∀ (ns : List Node) (held : Option Yaml),
    draftAll ns held = (outlines? ns).map fun ys => (ys, ys.getLast?.or held)
  | [], _ => rfl
  | n :: ns, held => by
    change (n.draft held).bind _ = _
    rw [draft_eq n held, outlines?]
    cases n.outline? with
    | none => rfl
    | some y =>
      change (draftAll ns >>= fun ys => pure (y :: ys)) (some y) = _
      rw [draftAll_bind (draftAll_eq ns (some y))]
      cases outlines? ns with
      | none => rfl
      | some ys =>
        have last : ys.getLast?.or (some y) = (y :: ys).getLast?.or held := by
          rw [List.getLast?_cons]
          cases ys.getLast? <;> rfl
        change some (y :: ys, ys.getLast?.or (some y)) = _
        rw [last]
        rfl

end

theorem document?_eq (n : Node) : n.document? = n.outline? := by
  change ((n.draft none).bind _).map _ = _
  rw [draft_eq]
  cases n.outline? <;> rfl

end StackLang.Node
