import StackLang.Scope

/-! What names mean in a forest of scopes. The history of the changes says it without any dictionary:
a name means the last that it was bound to, in the nearest scope towards the root where it was bound. -/
namespace StackLang

inductive Scopes.Change where
  | create (parent : Option Nat)
  | bind (scope : Nat) (name : Text) (b : Binding)

abbrev History := List Scopes.Change

namespace History

def parents (h : History) : List (Option Nat) :=
  h.filterMap fun
    | .create parent => some parent
    | .bind .. => none

def parent? (h : History) (c : Nat) : Option Nat := h.parents[c]?.join

/-- The scope so many parents above. -/
def ancestor? (h : History) : Nat → Nat → Option Nat
  | 0, c => some c
  | k + 1, c => (h.parent? c).bind (h.ancestor? k)

def bindings (h : History) (c : Nat) (name : Text) : List Binding :=
  h.filterMap fun
    | .create _ => none
    | .bind scope other b => if scope = c ∧ other = name then some b else none

/-- From `c`, the name is looked for in `t`: that is `c` itself or above it, and no scope that is
nearer has had the name bound. -/
def LooksIn (h : History) (c : Nat) (name : Text) (t : Nat) : Prop :=
  ∃ k, h.ancestor? k c = some t ∧ ∀ j < k, ∀ u, h.ancestor? j c = some u → h.bindings u name = []

/-- Every change is about scopes that have been created before it. -/
inductive Sensible : History → Prop
  | nil : Sensible []
  | create {h : History} {parent : Option Nat} (before : Sensible h)
    (older : ∀ p ∈ parent, p < h.parents.length) : Sensible (h ++ [.create parent])
  | bind {h : History} {scope : Nat} {name : Text} {b : Binding} (before : Sensible h)
    (there : scope < h.parents.length) : Sensible (h ++ [.bind scope name b])

end History

namespace Scopes

def change (s : Scopes) : Change → Scopes
  | .create parent => s.add parent
  | .bind scope name b => s.set scope name b

def after (h : History) : Scopes := h.foldl change []

end Scopes

/-- It is a fault of the run, and says that the name was not found. -/
structure Fault.Misses (f : Fault) (name : Text) : Prop where
  stage : (Failure.ofFault f).stage = .run
  cause : (Failure.ofFault f).causes = [.wordNotFound]
  op : f.op = name
  detail : f.trouble.detail = some name.quoted

theorem nameBefore_iff {s t : Text} : nameBefore s t = true ↔ s < t := by
  fun_induction nameBefore s t with
  | case1 t => cases t <;> simp
  | case2 => simp
  | case3 a s b t ih => simp [List.cons_lt_cons_iff, ih]

namespace Dictionary

def Ordered (d : Dictionary) : Prop := d.names.Pairwise (· < ·)

theorem mem_names {d : Dictionary} {name : Text} : name ∈ d.names ↔ d.find? name ≠ none := by
  induction d with
  | nil => simp [names, find?]
  | cons entry rest ih =>
    obtain ⟨key, old⟩ := entry
    rw [names] at ih ⊢
    by_cases found : key = name
    · simp [find?, found]
    · simp [find?, found, ih, Ne.symm found]

theorem mem_names_set {d : Dictionary} {name other : Text} {b : Binding}
    (mem : other ∈ (d.set name b).names) : other = name ∨ other ∈ d.names := by
  rw [mem_names, find?_set] at mem
  split at mem
  · exact .inl (Eq.symm ‹_›)
  · exact .inr (mem_names.2 mem)

theorem Ordered.set {d : Dictionary} (ordered : d.Ordered) (name : Text) (b : Binding) :
    (d.set name b).Ordered := by
  induction d with
  | nil => simp [Dictionary.set, Ordered, names]
  | cons entry rest ih =>
    obtain ⟨key, old⟩ := entry
    obtain ⟨first, later⟩ := List.pairwise_cons.1 ordered
    rw [Dictionary.set]
    by_cases found : key = name
    · subst found
      rw [if_pos rfl]
      exact ordered
    · rw [if_neg found]
      by_cases before : nameBefore name key = true
      · rw [if_pos before]
        have least := nameBefore_iff.1 before
        refine List.pairwise_cons.2 ⟨?_, ordered⟩
        exact List.forall_mem_cons.2 ⟨least, fun other mem => List.lt_trans least (first other mem)⟩
      · rw [if_neg before]
        have above : key < name := by
          rcases Std.lt_trichotomy key name with above | same | below
          · exact above
          · exact absurd same found
          · exact absurd (nameBefore_iff.2 below) before
        refine List.pairwise_cons.2 ⟨fun other mem => ?_, ih later⟩
        rcases mem_names_set mem with rfl | old
        · exact above
        · exact first other old

end Dictionary

theorem getElem?_concat_of_ne {α : Type} {l : List α} {a : α} {c : Nat} (other : c ≠ l.length) :
    (l ++ [a])[c]? = l[c]? := by
  rw [List.getElem?_append]
  split
  · rfl
  · have beyond : l.length < c := by omega
    simp [Nat.le_of_lt beyond, Nat.sub_ne_zero_of_lt beyond]

namespace History
variable {h : History} {c t : Nat} {name : Text}

theorem ancestor?_succ {k : Nat} : h.ancestor? (k + 1) c = some t ↔
    ∃ p, h.parent? c = some p ∧ h.ancestor? k p = some t :=
  Option.bind_eq_some_iff

theorem looksIn_iff : h.LooksIn c name t ↔
    t = c ∨ h.bindings c name = [] ∧ ∃ p, h.parent? c = some p ∧ h.LooksIn p name t := by
  constructor
  · rintro ⟨k, reached, nearer⟩
    cases k with
    | zero => exact .inl (Option.some.inj reached).symm
    | succ k =>
      obtain ⟨p, parent, above⟩ := ancestor?_succ.1 reached
      refine .inr ⟨nearer 0 (Nat.succ_pos k) c rfl, p, parent, k, above, fun j less u there => ?_⟩
      exact nearer (j + 1) (Nat.succ_lt_succ less) u (ancestor?_succ.2 ⟨p, parent, there⟩)
  · rintro (rfl | ⟨free, p, parent, k, above, nearer⟩)
    · exact ⟨0, rfl, fun j less => absurd less (Nat.not_lt_zero j)⟩
    · refine ⟨k + 1, ancestor?_succ.2 ⟨p, parent, above⟩, fun j less u there => ?_⟩
      cases j with
      | zero =>
        cases there
        exact free
      | succ j =>
        obtain ⟨q, same, later⟩ := ancestor?_succ.1 there
        cases parent.symm.trans same
        exact nearer j (Nat.lt_of_succ_lt_succ less) u later

theorem free_above_iff : (∀ k t, h.ancestor? k c = some t → h.bindings t name = []) ↔
    h.bindings c name = [] ∧
      ∀ p, h.parent? c = some p → ∀ k t, h.ancestor? k p = some t → h.bindings t name = [] := by
  constructor
  · intro free
    refine ⟨free 0 c rfl, fun p parent k t there => ?_⟩
    exact free (k + 1) t (ancestor?_succ.2 ⟨p, parent, there⟩)
  · rintro ⟨here, above⟩ k t there
    cases k with
    | zero =>
      cases there
      exact here
    | succ k =>
      obtain ⟨p, parent, later⟩ := ancestor?_succ.1 there
      exact above p parent k t later

theorem length_parents_create (h : History) (parent : Option Nat) :
    (parents (h ++ [.create parent])).length = h.parents.length + 1 := by
  simp [parents]

theorem parent?_create (h : History) (parent : Option Nat) (c : Nat) :
    parent? (h ++ [.create parent]) c = if c = h.parents.length then parent else h.parent? c := by
  have joined : parents (h ++ [.create parent]) = h.parents ++ [parent] := by simp [parents]
  rw [parent?, parent?, joined]
  by_cases new : c = h.parents.length
  · simp [new]
  · rw [if_neg new, getElem?_concat_of_ne new]

theorem parents_bind (h : History) (scope : Nat) (name : Text) (b : Binding) :
    parents (h ++ [.bind scope name b]) = h.parents := by
  simp [parents]

theorem parent?_bind (h : History) (scope : Nat) (name : Text) (b : Binding) (c : Nat) :
    parent? (h ++ [.bind scope name b]) c = h.parent? c := by
  rw [parent?, parents_bind, parent?]

theorem bindings_create (h : History) (parent : Option Nat) (c : Nat) (name : Text) :
    bindings (h ++ [.create parent]) c name = h.bindings c name := by
  simp [bindings]

theorem bindings_bind (h : History) (scope : Nat) (other : Text) (b : Binding) (c : Nat)
    (name : Text) : bindings (h ++ [.bind scope other b]) c name =
      h.bindings c name ++ if scope = c ∧ other = name then [b] else [] := by
  rw [bindings, List.filterMap_append]
  by_cases bound : scope = c ∧ other = name <;> simp [bindings, bound]

end History

namespace Scopes

/-- The scopes hold what the history says. -/
structure Records (s : Scopes) (h : History) : Prop where
  count : s.length = h.parents.length
  parent : ∀ c, (s.scope c).parent = h.parent? c
  older : ∀ c p, h.parent? c = some p → p < c
  entries : ∀ c name, (s.scope c).entries.find? name = (h.bindings c name).getLast?
  ordered : ∀ c, (s.scope c).entries.Ordered

variable {s : Scopes} {h : History}

theorem scope_add (s : Scopes) (parent : Option Nat) (c : Nat) :
    (s.add parent).scope c = if c = s.length then { parent } else s.scope c := by
  simp only [scope, add, List.getD_eq_getElem?_getD]
  by_cases new : c = s.length
  · simp [new]
  · rw [if_neg new, getElem?_concat_of_ne new]

theorem scope_set {i : Nat} (there : i < s.length) (name : Text) (b : Binding) (c : Nat) :
    (s.set i name b).scope c =
      if i = c then { s.scope c with entries := (s.scope c).entries.set name b } else s.scope c := by
  simp only [scope, set, List.getD_eq_getElem?_getD, List.getElem?_modify]
  by_cases same : i = c
  · subst same
    simp [List.getElem?_eq_getElem there]
  · simp [same]

theorem records_nil : Records [] [] where
  count := rfl
  parent _ := rfl
  older _ _ found := by cases found
  entries _ _ := rfl
  ordered _ := .nil

theorem Records.create (records : s.Records h) {parent : Option Nat}
    (older : ∀ p ∈ parent, p < h.parents.length) :
    (s.add parent).Records (h ++ [.create parent]) where
  count := by
    rw [History.length_parents_create, ← records.count]
    simp [add]
  parent c := by
    rw [scope_add, History.parent?_create, records.count]
    split
    · rfl
    · exact records.parent c
  older c p found := by
    rw [History.parent?_create] at found
    split at found
    · rename_i new
      exact new ▸ older p found
    · exact records.older c p found
  entries c name := by
    rw [scope_add, History.bindings_create, ← records.entries]
    split
    · rename_i new
      have nothing : s.scope c = {} := by simp [scope, new]
      rw [nothing]
    · rfl
  ordered c := by
    rw [scope_add]
    split
    · exact .nil
    · exact records.ordered c

theorem Records.bind (records : s.Records h) {i : Nat} (there : i < h.parents.length) (name : Text)
    (b : Binding) : (s.set i name b).Records (h ++ [.bind i name b]) where
  count := by
    rw [History.parents_bind, ← records.count]
    simp [set]
  parent c := by
    rw [scope_set (records.count ▸ there), History.parent?_bind]
    split
    · exact records.parent c
    · exact records.parent c
  older c p found := by
    rw [History.parent?_bind] at found
    exact records.older c p found
  entries c other := by
    rw [scope_set (records.count ▸ there), History.bindings_bind]
    by_cases same : i = c
    · rw [if_pos same, Dictionary.find?_set]
      by_cases bound : name = other
      · simp [same, bound]
      · simp [bound, records.entries]
    · simp [same, records.entries]
  ordered c := by
    rw [scope_set (records.count ▸ there)]
    split
    · exact (records.ordered c).set name b
    · exact records.ordered c

theorem records_after (sensible : h.Sensible) : (after h).Records h := by
  induction sensible with
  | nil => exact records_nil
  | create before older ih =>
    rw [after, List.foldl_append]
    exact ih.create older
  | bind before there ih =>
    rw [after, List.foldl_append]
    exact ih.bind there _ _

/-- What is bound in the scope itself comes first, and then what the parent finds. -/
theorem Records.find?_eq (records : s.Records h) (c : Nat) (name : Text) :
    s.find? c name =
      (h.bindings c name).getLast?.or ((h.parent? c).bind fun p => s.find? p name) := by
  rw [find?, records.entries, records.parent]
  cases (h.bindings c name).getLast? with
  | some b => rfl
  | none =>
    cases parent : h.parent? c with
    | none => rfl
    | some p => exact if_pos (records.older c p parent)

theorem Records.find?_eq_some_iff (records : s.Records h) (c : Nat) (name : Text) (b : Binding) :
    s.find? c name = some b ↔
      ∃ t, h.LooksIn c name t ∧ (h.bindings t name).getLast? = some b := by
  induction c using Nat.strongRecOn with
  | ind c above =>
    rw [records.find?_eq]
    by_cases free : h.bindings c name = []
    · rw [free, List.getLast?_nil, Option.none_or, Option.bind_eq_some_iff]
      constructor
      · rintro ⟨p, parent, found⟩
        obtain ⟨t, looks, last⟩ := (above p (records.older c p parent)).1 found
        exact ⟨t, History.looksIn_iff.2 (.inr ⟨free, p, parent, looks⟩), last⟩
      · rintro ⟨t, looks, last⟩
        rcases History.looksIn_iff.1 looks with rfl | ⟨-, p, parent, later⟩
        · rw [free] at last
          cases last
        · exact ⟨p, parent, (above p (records.older c p parent)).2 ⟨t, later, last⟩⟩
    · rw [Option.or_of_isSome (by simpa using free)]
      constructor
      · exact fun last => ⟨c, History.looksIn_iff.2 (.inl rfl), last⟩
      · rintro ⟨t, looks, last⟩
        rcases History.looksIn_iff.1 looks with rfl | ⟨free', -⟩
        · exact last
        · exact absurd free' free

theorem Records.find?_eq_none_iff (records : s.Records h) (c : Nat) (name : Text) :
    s.find? c name = none ↔ ∀ k t, h.ancestor? k c = some t → h.bindings t name = [] := by
  induction c using Nat.strongRecOn with
  | ind c above =>
    rw [records.find?_eq, Option.or_eq_none_iff, List.getLast?_eq_none_iff, Option.bind_eq_none_iff,
      History.free_above_iff]
    refine and_congr_right fun _ => forall₂_congr fun p parent => ?_
    exact above p (records.older c p parent)

/-- A binding is seen from a scope only if that looks for the name where it is bound. -/
theorem Records.looksIn_of_changed (records : s.Records h) {i : Nat} (there : i < h.parents.length)
    {name other : Text} {b : Binding} {c : Nat}
    (changed : (s.set i name b).find? c other ≠ s.find? c other) :
    other = name ∧ h.LooksIn c name i := by
  have after := records.bind there name b
  induction c using Nat.strongRecOn with
  | ind c above =>
    rw [after.find?_eq, records.find?_eq, History.bindings_bind, History.parent?_bind] at changed
    by_cases here : i = c ∧ name = other
    · exact ⟨here.2.symm, History.looksIn_iff.2 (.inl here.1)⟩
    · -- what `c` itself has is the same, so its parent finds something else
      rw [if_neg here, List.append_nil] at changed
      by_cases free : h.bindings c other = []
      · cases parent : h.parent? c with
        | none => simp [parent] at changed
        | some p =>
          rw [free, parent] at changed
          obtain ⟨rfl, looks⟩ := above p (records.older c p parent) changed
          exact ⟨rfl, History.looksIn_iff.2 (.inr ⟨free, p, parent, looks⟩)⟩
      · have bound : (h.bindings c other).getLast?.isSome = true := by simpa using free
        rw [Option.or_of_isSome bound, Option.or_of_isSome bound] at changed
        exact absurd rfl changed

theorem get_eq_ok_iff {c : Nat} {name : Text} {b : Binding} :
    s.get c name = .ok b ↔ s.find? c name = some b := by
  unfold get
  cases s.find? c name <;> simp

theorem get_misses {c : Nat} {name : Text} (nothing : s.find? c name = none) :
    ∃ f, s.get c name = .error f ∧ f.Misses name := by
  refine ⟨⟨name, .unknownWord name⟩, ?_, rfl, rfl, rfl, rfl⟩
  rw [get, nothing]

end Scopes

/-- After any history of a forest of scopes, a name means the last that it was bound to in the nearest
scope where it was bound, and without one it is not found. Binding a name in one scope changes only
what that name means, and only for scopes that look for it there. The names of a scope are those bound
in it, in order. -/
theorem names_mean_nearest_last (h : History) (sensible : h.Sensible) (c : Nat) (name : Text) :
    let s := Scopes.after h
    (∀ b, s.find? c name = some b ↔ ∃ t, h.LooksIn c name t ∧ (h.bindings t name).getLast? = some b) ∧
    (s.find? c name = none ↔ ∀ k t, h.ancestor? k c = some t → h.bindings t name = []) ∧
    (∀ b, s.get c name = .ok b ↔ s.find? c name = some b) ∧
    (s.find? c name = none → ∃ f, s.get c name = .error f ∧ f.Misses name) ∧
    (∀ t other b, t < h.parents.length → (s.set t other b).find? c name ≠ s.find? c name →
      name = other ∧ h.LooksIn c other t) ∧
    (s.scope c).entries.names.Pairwise (· < ·) ∧
    ∀ other, other ∈ (s.scope c).entries.names ↔ h.bindings c other ≠ [] := by
  intro s
  have records := Scopes.records_after sensible
  refine ⟨records.find?_eq_some_iff c name, records.find?_eq_none_iff c name,
    fun b => Scopes.get_eq_ok_iff, Scopes.get_misses,
    fun t other b there changed => records.looksIn_of_changed there changed, records.ordered c,
    fun other => ?_⟩
  rw [Dictionary.mem_names, records.entries, ne_eq, List.getLast?_eq_none_iff]

/-- A child that binds a name of its own, and a parent that is bound again later. -/
theorem names_mean_nearest_last_child :
    let x := utf8 "x"
    let y := utf8 "y"
    let one : Binding := .variable (.number 1)
    let two : Binding := .variable (.number 2)
    let h : History := [.create none, .create (some 0), .bind 0 y one, .bind 1 x two, .bind 0 x one,
      .bind 0 y two]
    let s := Scopes.after h
    h.Sensible ∧ s.find? 1 x = some two ∧ s.find? 1 y = some two ∧ s.find? 0 x = some one ∧
      s.find? 1 (utf8 "z") = none ∧ ∃ f, s.get 1 (utf8 "z") = .error f ∧ f.Misses (utf8 "z") := by
  intro x y one two h s
  have root : History.Sensible ([] ++ [.create none]) := .create .nil (by simp)
  have child : History.Sensible ([.create none] ++ [.create (some 0)]) :=
    .create root (by simp [History.parents])
  have sensible : h.Sensible := by
    have first : History.Sensible (_ ++ [.bind 0 y one]) := .bind child (by decide)
    have second : History.Sensible (_ ++ [.bind 1 x two]) := .bind first (by decide)
    have third : History.Sensible (_ ++ [.bind 0 x one]) := .bind second (by decide)
    exact .bind third (by decide)
  have nothing : s.find? 1 (utf8 "z") = none := by
    have other : x ≠ utf8 "z" ∧ y ≠ utf8 "z" := by decide
    refine (names_mean_nearest_last h sensible 1 (utf8 "z")).2.1.2 fun k t _ => ?_
    simp [h, History.bindings, other]
  refine ⟨sensible, ?_, ?_, ?_, nothing, ?_⟩
  · exact ((names_mean_nearest_last h sensible 1 x).1 two).2 ⟨1, ⟨0, rfl, by simp⟩, rfl⟩
  · refine ((names_mean_nearest_last h sensible 1 y).1 two).2 ⟨0, ⟨1, rfl, ?_⟩, rfl⟩
    intro j less u there
    cases Nat.lt_one_iff.1 less
    cases there
    rfl
  · exact ((names_mean_nearest_last h sensible 0 x).1 one).2 ⟨0, ⟨0, rfl, by simp⟩, rfl⟩
  · exact (names_mean_nearest_last h sensible 1 (utf8 "z")).2.2.2.1 nothing

end StackLang
