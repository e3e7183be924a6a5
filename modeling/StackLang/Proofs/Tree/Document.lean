import StackLang.Proofs.Token.Title
import StackLang.Proofs.Tree.Acceptance
import StackLang.Proofs.Tree.Draft
import StackLang.Proofs.Yaml.Record

/-! The document of a tree determines the tree. It is read back: the form of a value under a key
tells the kind of node, and where that is a text the key does. A hole is all that keeps a tree from
having a document. -/
namespace StackLang

namespace Yaml

def leaf? (key t : Text) : Option Node :=
  if key = utf8 "op" then (Kind.ofTitle? t).map .op
  else if key = utf8 "index" then some (.index (loopDepth t))
  else if key = utf8 "call" then some (.call t)
  else if key = utf8 "set" then some (.set t)
  else if key = utf8 "get" then some (.get t)
  else none

mutual

def tree? : Yaml → Option Node
  | .seq items => (trees? items).map .block
  | .map [entry] => entryTree? entry
  | _ => none

def entryTree? : Text × Yaml → Option Node
  | (_, .int value) => some (.number (.ofInt value))
  | (_, .quoted t) => some (.string t)
  | (key, .text t) => leaf? key t
  | (_, .seq items) => (trees? items).map .loop
  | (_, .map [(_, .text name), (_, .seq items)]) => (trees? items).map (.define name)
  | (_, .map [(_, .seq yes)]) => (trees? yes).map (.branch · [])
  | (_, .map [(_, .seq yes), (_, .seq no)]) =>
    (trees? yes).bind fun ns => (trees? no).map (.branch ns)
  | _ => none

def trees? : List Yaml → Option (List Node)
  | [] => some []
  | item :: items => item.tree?.bind fun n => (trees? items).map (n :: ·)

end

end Yaml

namespace Node

/-- The depths of the loop variables in it are numbers of 32 bits. -/
def DepthsFit (n : Node) : Prop :=
  ∀ depth, Within (.index depth) n → -2147483648 ≤ depth ∧ depth ≤ 2147483647

theorem outline?_branch_eq_some {yes no : List Node} {y : Yaml} :
    (branch yes no).outline? = some y ↔
      ∃ ys zs, outlines? yes = some ys ∧ outlines? no = some zs ∧
        entry "if" (branches ys zs) = y := by
  simp [outline?, Option.bind_eq_some_iff]

theorem entry_tree? (key : String) (value : Yaml) :
    (entry key value).tree? = Yaml.entryTree? (utf8 key, value) := rfl

mutual

/-- A document is read back into its tree. -/
theorem tree?_outline? : ∀ {n : Node} {y : Yaml}, n.DepthsFit → n.outline? = some y →
    y.tree? = some n
  | .number value, _, _, outlined => by
    cases outlined
    rw [entry_tree?, Yaml.entryTree?, Int32.ofInt_toInt]
  | .string _, _, _, outlined => by
    cases outlined
    rfl
  | .op kind, _, _, outlined => by
    cases outlined
    change (Kind.ofTitle? kind.title).map op = _
    rw [Kind.ofTitle?_title]
    rfl
  | .block body, _, fit, outlined => by
    obtain ⟨ys, inner, rfl⟩ := Option.map_eq_some_iff.1 outlined
    have read := trees?_outlines? (fun n mem depth within => fit depth (.block mem within)) inner
    rw [Yaml.tree?, read]
    rfl
  | .call _, _, _, outlined | .set _, _, _, outlined | .get _, _, _, outlined => by
    cases outlined
    rfl
  | .define name body, _, fit, outlined => by
    obtain ⟨ys, inner, rfl⟩ := Option.map_eq_some_iff.1 outlined
    have read := trees?_outlines? (fun n mem depth within => fit depth (.define mem within)) inner
    rw [entry_tree?, Yaml.entryTree?, read]
    rfl
  | .branch yes no, _, fit, outlined => by
    obtain ⟨ys, zs, first, second, rfl⟩ := outline?_branch_eq_some.1 outlined
    have here := trees?_outlines? (fun n mem depth within => fit depth (.yes mem within)) first
    have there := trees?_outlines? (fun n mem depth within => fit depth (.no mem within)) second
    cases zs with
    | nil =>
      cases there
      change (Yaml.trees? ys).map (branch · []) = _
      rw [here]
      rfl
    | cons z zs =>
      change ((Yaml.trees? ys).bind fun ns => (Yaml.trees? (z :: zs)).map (branch ns)) = _
      rw [here, there]
      rfl
  | .loop body, _, fit, outlined => by
    obtain ⟨ys, inner, rfl⟩ := Option.map_eq_some_iff.1 outlined
    have read := trees?_outlines? (fun n mem depth within => fit depth (.loop mem within)) inner
    rw [entry_tree?, Yaml.entryTree?, read]
    rfl
  | .index depth, _, fit, outlined => by
    cases outlined
    obtain ⟨least, most⟩ := fit depth .self
    change some (index (loopDepth (loopName (.ofInt depth)))) = _
    rw [loopDepth_loopName, Int32.toInt_ofInt_of_le least (by omega)]

theorem trees?_outlines? : ∀ {ns : List Node} {ys : List Yaml}, (∀ n ∈ ns, n.DepthsFit) →
    outlines? ns = some ys → Yaml.trees? ys = some ns
  | [], _, _, outlined => by
    cases outlined
    rfl
  | n :: ns, _, fit, outlined => by
    obtain ⟨y, ys, first, rest, rfl⟩ := outlines?_cons_eq_some.1 outlined
    obtain ⟨here, later⟩ := List.forall_mem_cons.1 fit
    rw [Yaml.trees?, tree?_outline? here first, trees?_outlines? later rest]
    rfl

end

theorem outlines?_eq_none {n : Node} {ns : List Node} (mem : n ∈ ns) (none : n.outline? = none) :
    outlines? ns = .none := by
  induction ns with
  | nil => cases mem
  | cons m ns ih =>
    rcases List.mem_cons.1 mem with rfl | mem
    · rw [outlines?, none]
      rfl
    · rw [outlines?, ih mem]
      cases m.outline? <;> rfl

theorem outline?_eq_none {n : Node} (within : Within .hole n) : n.outline? = none := by
  induction within with
  | self => rfl
  | block mem _ ih | define mem _ ih | loop mem _ ih =>
    rw [outline?, outlines?_eq_none mem ih]
    rfl
  | yes mem _ ih =>
    rw [outline?, outlines?_eq_none mem ih]
    rfl
  | @no _ yes _ mem _ ih =>
    rw [outline?, outlines?_eq_none mem ih]
    cases outlines? yes <;> rfl

mutual

theorem exists_outline : ∀ {n : Node}, ¬ Within .hole n → ∃ y, n.outline? = some y
  | .number _, _ | .string _, _ | .op _, _ | .call _, _ | .index _, _ | .set _, _ | .get _, _ =>
    ⟨_, rfl⟩
  | .hole, whole => absurd .self whole
  | .block body, whole => by
    obtain ⟨ys, inner⟩ := exists_outlines fun n mem within => whole (.block (n := n) mem within)
    exact ⟨_, by rw [outline?, inner]; rfl⟩
  | .define name body, whole => by
    obtain ⟨ys, inner⟩ := exists_outlines fun n mem within => whole (.define (n := n) mem within)
    exact ⟨_, by rw [outline?, inner]; rfl⟩
  | .branch yes no, whole => by
    obtain ⟨ys, first⟩ := exists_outlines fun n mem within => whole (.yes (n := n) mem within)
    obtain ⟨zs, second⟩ := exists_outlines fun n mem within => whole (.no (n := n) mem within)
    exact ⟨_, by rw [outline?, first, second]; rfl⟩
  | .loop body, whole => by
    obtain ⟨ys, inner⟩ := exists_outlines fun n mem within => whole (.loop (n := n) mem within)
    exact ⟨_, by rw [outline?, inner]; rfl⟩

theorem exists_outlines : ∀ {ns : List Node}, (∀ n ∈ ns, ¬ Within .hole n) →
    ∃ ys, outlines? ns = some ys
  | [], _ => ⟨[], rfl⟩
  | n :: ns, whole => by
    obtain ⟨here, later⟩ := List.forall_mem_cons.1 whole
    obtain ⟨y, first⟩ := exists_outline here
    obtain ⟨ys, rest⟩ := exists_outlines later
    exact ⟨y :: ys, by rw [outlines?, first, rest]; rfl⟩

end

/-- A block and a body are sequences, and a node is a mapping with one key unless it is a block. Of
the two bodies of a branch the second is left out if there is nothing in it. -/
structure Shaped (n : Node) (y : Yaml) : Prop where
  block : ∀ body, n = block body → ∃ ys, outlines? body = some ys ∧ y = .seq ys
  other : (∀ body, n ≠ .block body) → ∃ key value, y = .map [(key, value)]
  define : ∀ name body, n = define name body → ∃ ys, outlines? body = some ys ∧
    y = entry "define" (.map [(utf8 "name", .text name), (utf8 "body", .seq ys)])
  loop : ∀ body, n = loop body → ∃ ys, outlines? body = some ys ∧ y = entry "loop" (.seq ys)
  branch : ∀ yes no, n = branch yes no → ∃ ys zs, outlines? yes = some ys ∧
    outlines? no = some zs ∧ y = entry "if" (.map
      ((utf8 "then", .seq ys) :: if no = [] then [] else [(utf8 "else", .seq zs)]))

theorem shaped_outline {n : Node} {y : Yaml} (outlined : n.outline? = some y) : n.Shaped y := by
  constructor
  · rintro body rfl
    obtain ⟨ys, inner, rfl⟩ := Option.map_eq_some_iff.1 outlined
    exact ⟨ys, inner, rfl⟩
  · intro other
    cases n with
    | block body => exact absurd rfl (other body)
    | hole => cases outlined
    | define | loop =>
      obtain ⟨ys, -, rfl⟩ := Option.map_eq_some_iff.1 outlined
      exact ⟨_, _, rfl⟩
    | branch =>
      obtain ⟨ys, zs, -, -, rfl⟩ := outline?_branch_eq_some.1 outlined
      exact ⟨_, _, rfl⟩
    | _ =>
      cases outlined
      exact ⟨_, _, rfl⟩
  · rintro name body rfl
    obtain ⟨ys, inner, rfl⟩ := Option.map_eq_some_iff.1 outlined
    exact ⟨ys, inner, rfl⟩
  · rintro body rfl
    obtain ⟨ys, inner, rfl⟩ := Option.map_eq_some_iff.1 outlined
    exact ⟨ys, inner, rfl⟩
  · rintro yes no rfl
    obtain ⟨ys, zs, first, second, rfl⟩ := outline?_branch_eq_some.1 outlined
    refine ⟨ys, zs, first, second, ?_⟩
    rw [branches, isEmpty_outlines? second]
    cases no <;> rfl

/-- Drafting gives the outline, and trees with the same document are the same. -/
theorem documents_tell_trees {n m : Node} (whole : ¬ Within .hole n) (whole' : ¬ Within .hole m) :
    (∃ y, n.outline? = some y ∧ n.document? = some y ∧
      (∀ held, n.draft held = some ((), some y)) ∧ n.Shaped y) ∧
    (n.DepthsFit → m.DepthsFit →
      n.document?.map Yaml.record = m.document?.map Yaml.record → n = m) := by
  obtain ⟨y, outlined⟩ := exists_outline whole
  obtain ⟨z, outlined'⟩ := exists_outline whole'
  constructor
  · refine ⟨y, outlined, ?_, fun held => ?_, shaped_outline outlined⟩
    · rw [document?_eq, outlined]
    · rw [draft_eq, outlined]
      rfl
  · intro fit fit' same
    rw [document?_eq, document?_eq, outlined, outlined'] at same
    have documents := Yaml.record_inj (Option.some.inj same)
    have read := tree?_outline? fit outlined
    rw [documents, tree?_outline? fit' outlined'] at read
    exact (Option.some.inj read).symm

/-- A stray byte and the replacement character give different documents, even where the document
cannot be written as a text. -/
theorem documents_tell_trees_stray :
    let tree (t : Text) : Node := branch [index 2147483647] [string t]
    (∀ t, ¬ Within .hole (tree t)) ∧ (∀ t, (tree t).DepthsFit) ∧
      (tree [0xFF]).document?.map Yaml.record ≠
        (tree [0xEF, 0xBF, 0xBD]).document?.map Yaml.record := by
  intro tree
  have whole (t : Text) : ¬ Within .hole (tree t) := fun within => by
    cases outline?_eq_none within
  have fit (t : Text) : (tree t).DepthsFit := by
    intro depth within
    cases within with
    | yes mem inner =>
      cases List.mem_singleton.1 mem
      cases inner
      decide
    | no mem inner =>
      cases List.mem_singleton.1 mem
      cases inner
  refine ⟨whole, fit, fun same => ?_⟩
  have trees := (documents_tell_trees (whole _) (whole _)).2 (fit _) (fit _) same
  simp [tree] at trees

end Node
end StackLang
