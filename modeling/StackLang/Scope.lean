import StackLang.Fault
import StackLang.Tree

/-! Names and what they are bound to. A dictionary is kept in the order of its names; scopes form a
forest in which a name is looked up from a scope towards its root. -/
namespace StackLang

inductive Binding where
  | word (body : List Node)
  | variable (value : Entity)
  deriving Repr

/-- Bindings in the order of their names, byte by byte. -/
abbrev Dictionary := List (Text × Binding)

def nameBefore : Text → Text → Bool
  | [], t => !t.isEmpty
  | _ :: _, [] => false
  | a :: s, b :: t => a < b || (a == b && nameBefore s t)

namespace Dictionary

def find? (d : Dictionary) (name : Text) : Option Binding :=
  match d with
  | [] => none
  | (key, b) :: rest => if key = name then some b else find? rest name

def set (d : Dictionary) (name : Text) (b : Binding) : Dictionary :=
  match d with
  | [] => [(name, b)]
  | (key, old) :: rest =>
    if key = name then (name, b) :: rest
    else if nameBefore name key then (name, b) :: (key, old) :: rest
    else (key, old) :: set rest name b

def names (d : Dictionary) : List Text := d.map Prod.fst

theorem find?_set (d : Dictionary) (name : Text) (b : Binding) (other : Text) :
    (d.set name b).find? other = if name = other then some b else d.find? other := by
  induction d with
  | nil => rfl
  | cons entry rest ih =>
    obtain ⟨key, old⟩ := entry
    simp only [set]
    split
    · rename_i same
      subst same
      simp only [find?]
      split <;> rfl
    · rename_i differs
      split
      · rfl
      · simp only [find?, ih]
        by_cases found : key = other
        · rw [if_pos found, if_pos found, if_neg fun same => differs (found.trans same.symm)]
        · rw [if_neg found, if_neg found]

end Dictionary

/-- A dictionary that may have another one behind it. -/
structure Scope where
  parent : Option Nat := none
  entries : Dictionary := []
  deriving Repr

/-- Scopes by number; a parent is older than its children. -/
abbrev Scopes := List Scope

namespace Scopes

def scope (s : Scopes) (i : Nat) : Scope := s.getD i {}

def add (s : Scopes) (parent : Option Nat) : Scopes := s ++ [{ parent := parent }]

def set (s : Scopes) (i : Nat) (name : Text) (b : Binding) : Scopes :=
  s.modify i fun c => { c with entries := c.entries.set name b }

/-- The binding in the nearest scope that has one. -/
def find? (s : Scopes) (i : Nat) (name : Text) : Option Binding :=
  match (s.scope i).entries.find? name with
  | some b => some b
  | none =>
    match (s.scope i).parent with
    | some p => if p < i then find? s p name else none
    | none => none
termination_by i

def get (s : Scopes) (i : Nat) (name : Text) : Except Fault Binding :=
  match s.find? i name with
  | some b => .ok b
  | none => .error ⟨name, .unknownWord name⟩

end Scopes
end StackLang
