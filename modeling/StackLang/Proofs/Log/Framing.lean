import Mathlib.Data.List.Basic
import StackLang.Log
import StackLang.Proofs.Output.Delivery
import StackLang.Proofs.Text.Glyph

/-! The lines of a log. On a device that takes everything each call comes to one block: the level,
the tag and the message, ended as a line. A tag is part of the template, though, so that a percent
sign in it is no text when there are arguments. -/
namespace StackLang

namespace Template

end Template

namespace Logger

inductive Entry where
  | leveled (level : Text) (m : Message)
  | tagged (level tag : Text) (m : Message)
  | error (m : Message)
  | errorIf (f : Option Failure)

def enter (l : Logger) (c : Console) : Entry → Logger × Console
  | .leveled level m => l.log c level m
  | .tagged level tag m => l.log c level (m.tagged tag)
  | .error m => l.error c m
  | .errorIf f => l.errorIf c f

/-- The level, the tag and the message, as a line. -/
def Entry.block (color : Bool) : Entry → Text
  | .leveled level m => ended (label color level ++ m.text)
  | .tagged level tag m => ended (label color level ++ (utf8 "[" ++ tag ++ utf8 "] " ++ m.text))
  | .error m => ended (label color (utf8 "ERROR") ++ m.text)
  | .errorIf none => []
  | .errorIf (some f) => ended (label color (utf8 "ERROR") ++ f.message)

def Entry.written (color : Bool) : Entry → Text
  | .tagged level tag m => ended (label color level ++ (m.tagged tag).text)
  | entry => entry.block color

/-- The logger has written to its device, which takes everything, and nothing is left over. -/
structure Wrote (l : Logger) (i : Nat) (c : Console) (data : Text) (r : Logger × Console) :
    Prop where
  device : r.1.device = some i
  color : r.1.color = l.color
  empty : r.1.buffer = []
  takesAll : (r.2.device i).TakesAll
  kept : (r.2.device i).kind ≠ .discard
  data : r.2.dataOf i = c.dataOf i ++ data

theorem Wrote.trans {l : Logger} {i : Nat} {c : Console} {data more : Text}
    {r r' : Logger × Console} (first : Wrote l i c data r) (second : Wrote r.1 i r.2 more r') :
    Wrote l i c (data ++ more) r' where
  device := second.device
  color := second.color.trans first.color
  empty := second.empty
  takesAll := second.takesAll
  kept := second.kept
  data := by rw [second.data, first.data, List.append_assoc]

theorem Wrote.exitCode {l : Logger} {i : Nat} {c : Console} {data : Text} {r : Logger × Console}
    (wrote : Wrote l i c data r) (code : Nat) :
    Wrote l i c data ({ r.1 with exitCode := code }, r.2) :=
  ⟨wrote.device, wrote.color, wrote.empty, wrote.takesAll, wrote.kept, wrote.data⟩

section

variable {l : Logger} {i : Nat} {c : Console} (device : l.device = some i)
  (takesAll : (c.device i).TakesAll) (kept : (c.device i).kind ≠ .discard)

include device takesAll kept

variable (empty : l.buffer = [])

include empty

end

end Logger
end StackLang
