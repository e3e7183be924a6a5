import StackLang.Failure

/-! Named program texts, and faults placed back into them. -/
namespace StackLang

structure Source where
  name : Text
  text : Text
  deriving DecidableEq, Repr

namespace Source

def afterLines : Nat → Text → Option Text
  | 0, t => some t
  | n + 1, t =>
    match t.dropWhile (· ≠ Text.newline) with
    | [] => none
    | _ :: rest => afterLines n rest

def line (src : Source) (n : Int) : Text :=
  if n < 1 then []
  else
    let l := ((afterLines (n.toNat - 1) src.text).getD []).takeWhile (· ≠ Text.newline)
    if l.getLast? = some 0x0D then l.dropLast else l

/-- Attributes a failure to the source, with the line that its first fault points at. -/
def locate (src : Source) (f : Failure) : Failure :=
  match f.firstSite? with
  | some site =>
    if site.pos.isKnown then .located src.name site.pos (src.line site.pos.line) f
    else .located src.name {} [] f
  | none => .located src.name {} [] f

end Source

/-- What stands before the mark: a tab for a tab and a space for any other character, up to the
column. -/
def caretIndent (col : Int) (line : Text) : Text :=
  (line.glyphs.take (col - 1).toNat).map fun g => if g = .char '\t' then 0x09 else Text.space

namespace Failure

structure Place where
  pos : Pos
  line : Text
  deriving DecidableEq, Repr

def firstPlace? (f : Failure) : Option Place :=
  f.chain.findSome? fun g => match g with
    | located _ pos line _ => some ⟨pos, line⟩
    | _ => none

end Failure

/-- The line, and under it a mark at the column; nothing if the position is not known. -/
def Failure.Place.context (p : Failure.Place) : Text :=
  if p.pos.isKnown then p.line ++ utf8 "\n" ++ caretIndent p.pos.col p.line ++ utf8 "^" else []

end StackLang
