import Mathlib.Data.List.Basic
import StackLang.Dump
import StackLang.Proofs.Interpreter.Counting
import StackLang.Proofs.Text.Quoted

/-! Values as dumps and traces show them. What is shown of a value tells its type by the first byte,
and then the value itself; wherever one value stands in place of another it shows. A whole stack is
told from what is shown of it too, if no name of a function looks as if a value ended in it. -/
namespace StackLang

namespace Entity

def typeOf (b : UInt8) : EntityType :=
  if b = 0x22 then .string
  else if b = 0x23 then .pointer
  else if b = 0x46 then .function
  else if b = 0x3C then .nothing
  else .number

theorem decimal_ne {n : Int} {b c : UInt8} (mem : b ∈ Text.decimal n)
    (other : c ≠ 0x2D ∧ (c.toNat < 48 ∨ 57 < c.toNat)) : b ≠ c := by
  rintro rfl
  rcases Text.mem_decimal mem with minus | digit
  · exact other.1 minus
  · have range := isDigitByte_iff.1 digit
    omega

theorem typeOf_decimal {n : Int} {b : UInt8} (mem : b ∈ Text.decimal n) : typeOf b = .number := by
  have other := fun c => decimal_ne (c := c) mem
  rw [typeOf, if_neg (other _ (by decide)), if_neg (other _ (by decide)),
    if_neg (other _ (by decide)), if_neg (other _ (by decide))]

theorem shown_begins (e : Entity) : ∃ b t, e.shown = b :: t ∧ typeOf b = e.type := by
  cases e with
  | number n =>
    have some : Text.decimal n.toInt ≠ [] := by
      cases n.toInt with
      | ofNat n => exact Text.numeral_ne_nil n
      | negSucc n => exact List.cons_ne_nil _ _
    obtain ⟨b, t, shown⟩ := List.exists_cons_of_ne_nil some
    exact ⟨b, t, shown, typeOf_decimal (shown ▸ List.mem_cons_self)⟩
  | string => exact ⟨_, _, rfl, rfl⟩
  | pointer => exact ⟨_, _, rfl, rfl⟩
  | function => exact ⟨_, _, rfl, rfl⟩
  | nothing => exact ⟨_, _, rfl, rfl⟩

inductive Paired : Entity → Entity → Prop
  | numbers (n m : Int32) : Paired (number n) (number m)
  | strings (t u : Text) : Paired (string t) (string u)
  | pointers (p q : UInt32) : Paired (pointer p) (pointer q)
  | functions (name other : Text) : Paired (function name) (function other)
  | nothings : Paired nothing nothing

theorem paired_of_type {a b : Entity} (types : a.type = b.type) : Paired a b := by
  cases a <;> cases b <;> first | constructor | cases types

theorem paired_of_shown {a b : Entity} {r s : Text} (same : a.shown ++ r = b.shown ++ s) :
    Paired a b := by
  obtain ⟨x, t, begins, type⟩ := a.shown_begins
  obtain ⟨y, u, begins', type'⟩ := b.shown_begins
  rw [begins, begins'] at same
  exact paired_of_type (by rw [← type, ← type', (List.cons.inj same).1])

theorem address_inj {k : Nat} {p q : UInt32} (same : Text.hex k p.toNat = Text.hex k q.toNat) :
    p = q := by
  apply UInt32.toNat_inj.1
  rw [← Text.valueIn_hex k p.toNat, same, Text.valueIn_hex]

/-- Values that are shown alike are the same. -/
theorem shown_inj {a b : Entity} (same : a.shown = b.shown) : a = b := by
  cases paired_of_shown (congrArg (· ++ []) same) with
  | numbers n m => exact congrArg number (Int32.toInt_inj.1 (Text.decimal_inj same))
  | strings t u => exact congrArg string (Text.quotedBy_inj same)
  | pointers p q => exact congrArg pointer (address_inj (List.append_cancel_left same))
  | functions name other => exact congrArg function (List.append_cancel_left same)
  | nothings => rfl

def isEnd (b : UInt8) : Bool := b = Text.space ∨ b = 0x5D

/-- No name of a function has a byte in it that comes after a value. -/
def Tidy : Entity → Prop
  | function name => ∀ b ∈ name, isEnd b = false
  | _ => True

instance : DecidablePred Tidy
  | function name => List.decidableBAll (isEnd · = false) name
  | number _ | string _ | pointer _ | nothing => .isTrue trivial

theorem cut_at_end {t u r s : Text} {c d : UInt8} (clear : ∀ b ∈ t, isEnd b = false)
    (clear' : ∀ b ∈ u, isEnd b = false) (ends : isEnd c = true) (ends' : isEnd d = true)
    (same : t ++ c :: r = u ++ d :: s) : t = u ∧ c :: r = d :: s := by
  have front {t r : Text} {c : UInt8} (clear : ∀ b ∈ t, isEnd b = false) (ends : isEnd c = true) :
      (t ++ c :: r).takeWhile (!isEnd ·) = t := by
    rw [List.takeWhile_append_of_pos fun b mem => by rw [clear b mem]; rfl,
      List.takeWhile_cons_of_neg (by rw [ends]; decide), List.append_nil]
  have fronts : t = u := by rw [← front clear ends, same, front clear' ends']
  exact ⟨fronts, List.append_cancel_left (fronts ▸ same)⟩

theorem decimal_clear (n : Int) : ∀ b ∈ Text.decimal n, isEnd b = false := by
  intro b mem
  have other := fun c => decimal_ne (c := c) mem
  exact decide_eq_false (not_or.2 ⟨other _ (by decide), other _ (by decide)⟩)

theorem hex_clear (k n : Nat) : ∀ b ∈ Text.hex k n, isEnd b = false := by
  intro b mem
  obtain ⟨d, small, rfl⟩ := Text.exists_digit_hex mem
  have table : ∀ d : Fin 16, isEnd (Text.digit d.val) = false := by decide
  exact table ⟨d, small⟩

/-- Where one value ends and another begins is told by what is shown. -/
theorem shown_cut {a b : Entity} (tidy : a.Tidy) (tidy' : b.Tidy) {r s : Text} {c d : UInt8}
    (ends : isEnd c = true) (ends' : isEnd d = true)
    (same : a.shown ++ c :: r = b.shown ++ d :: s) : a = b ∧ c :: r = d :: s := by
  cases paired_of_shown same with
  | numbers n m =>
    obtain ⟨shown, rest⟩ := cut_at_end (decimal_clear _) (decimal_clear _) ends ends' same
    exact ⟨shown_inj shown, rest⟩
  | strings t u =>
    obtain ⟨rfl, rest⟩ := Text.quotedBy_append_inj same
    exact ⟨rfl, rest⟩
  | pointers p q =>
    have addresses := (List.cons.inj same).2
    obtain ⟨shown, rest⟩ := cut_at_end (hex_clear _ _) (hex_clear _ _) ends ends' addresses
    exact ⟨congrArg pointer (address_inj shown), rest⟩
  | functions name other =>
    have split (name r : Text) : (function name).shown ++ r = utf8 "FUNC: " ++ (name ++ r) :=
      List.append_assoc _ _ _
    rw [split, split] at same
    obtain ⟨rfl, rest⟩ := cut_at_end tidy tidy' ends ends' (List.append_cancel_left same)
    exact ⟨rfl, rest⟩
  | nothings => exact ⟨rfl, List.append_cancel_left same⟩

def behind (es : List Entity) : Text := es.flatMap (fun e => Text.space :: e.shown) ++ [0x5D]

theorem behind_cons (e : Entity) (es : List Entity) :
    behind (e :: es) = Text.space :: (e.shown ++ behind es) := by
  simp [behind]

theorem exists_behind (es : List Entity) : ∃ c r, behind es = c :: r ∧ isEnd c = true := by
  cases es with
  | nil => exact ⟨_, _, rfl, rfl⟩
  | cons e es => exact ⟨_, _, behind_cons e es, rfl⟩

theorem shown_behind_cut {a b : Entity} {es fs : List Entity} (tidy : a.Tidy) (tidy' : b.Tidy)
    (same : a.shown ++ behind es = b.shown ++ behind fs) : a = b ∧ behind es = behind fs := by
  obtain ⟨c, r, here, ends⟩ := exists_behind es
  obtain ⟨d, s, there, ends'⟩ := exists_behind fs
  rw [here, there] at same ⊢
  exact shown_cut tidy tidy' ends ends' same

theorem behind_inj {es fs : List Entity} (tidy : ∀ e ∈ es, e.Tidy) (tidy' : ∀ f ∈ fs, f.Tidy)
    (same : behind es = behind fs) : es = fs := by
  induction es generalizing fs with
  | nil =>
    cases fs with
    | nil => rfl
    | cons f fs =>
      rw [behind_cons] at same
      cases (List.cons.inj same).1
  | cons e es ih =>
    obtain ⟨here, later⟩ := List.forall_mem_cons.1 tidy
    rw [behind_cons] at same
    cases fs with
    | nil => cases (List.cons.inj same).1
    | cons f fs =>
      obtain ⟨here', later'⟩ := List.forall_mem_cons.1 tidy'
      rw [behind_cons] at same
      obtain ⟨rfl, rest⟩ := shown_behind_cut here here' (List.cons.inj same).2
      rw [ih later later' rest]

end Entity

open Entity (Tidy behind)

theorem shownStack_concat (below : List Entity) (e : Entity) :
    shownStack (below ++ [e]) = utf8 "[" ++ (e.shown ++ behind below.reverse) := by
  have closed : utf8 "]" = [0x5D] := by decide
  simp only [shownStack, List.reverse_append, List.reverse_singleton, List.singleton_append,
    List.map_cons, Text.join, behind, closed, List.flatMap_map, List.append_assoc]

theorem shownStack_concat_ne_nil (below : List Entity) (e : Entity) :
    shownStack (below ++ [e]) ≠ shownStack [] := by
  intro same
  obtain ⟨b, t, begins, -⟩ := e.shown_begins
  obtain ⟨c, r, more, -⟩ := Entity.exists_behind below.reverse
  rw [shownStack_concat, begins, more] at same
  have size := congrArg List.length same
  have brackets : (shownStack []).length = 2 := by decide
  have one : (utf8 "[").length = 1 := by decide
  rw [brackets, List.length_append, one, List.length_append, List.length_cons,
    List.length_cons] at size
  omega

/-- Stacks that are shown alike are the same, if the names in them are tidy. -/
theorem shownStack_inj {xs ys : List Entity} (tidy : ∀ e ∈ xs, e.Tidy) (tidy' : ∀ e ∈ ys, e.Tidy)
    (same : shownStack xs = shownStack ys) : xs = ys := by
  rcases List.eq_nil_or_concat' xs with rfl | ⟨below, e, rfl⟩
  · rcases List.eq_nil_or_concat' ys with rfl | ⟨below', f, rfl⟩
    · rfl
    · exact absurd same.symm (shownStack_concat_ne_nil below' f)
  · rcases List.eq_nil_or_concat' ys with rfl | ⟨below', f, rfl⟩
    · exact absurd same (shownStack_concat_ne_nil below e)
    · obtain ⟨others, bottom⟩ := List.forall_mem_append.1 tidy
      obtain ⟨others', bottom'⟩ := List.forall_mem_append.1 tidy'
      rw [shownStack_concat, shownStack_concat] at same
      obtain ⟨rfl, rest⟩ := Entity.shown_behind_cut (bottom e List.mem_cons_self)
        (bottom' f List.mem_cons_self) (List.append_cancel_left same)
      have above := Entity.behind_inj (fun e mem => others e (List.mem_reverse.1 mem))
        (fun f mem => others' f (List.mem_reverse.1 mem)) rest
      rw [List.reverse_injective above]

/-- The text has a value between parts that do not depend on it, if there is a text. -/
def Shows (text : Entity → Option Text) : Prop :=
  (∀ e, text e = none) ∨ ∃ front back, ∀ e, text e = some (front ++ e.shown ++ back)

namespace Shows

variable {text : Entity → Option Text}

theorem inj (shows : Shows text) {a b : Entity} {t : Text} (here : text a = some t)
    (there : text b = some t) : a = b := by
  rcases shows with none | ⟨front, back, shown⟩
  · cases (none a).symm.trans here
  · have same := Option.some.inj ((shown a).symm.trans (here.trans (there.symm.trans (shown b))))
    exact Entity.shown_inj (List.append_cancel_left (List.append_cancel_right same))

theorem between (shows : Shows text) (before after : Text) :
    Shows fun e => (text e).map fun t => before ++ t ++ after := by
  rcases shows with none | ⟨front, back, shown⟩
  · exact .inl fun e => congrArg (Option.map _) (none e)
  · refine .inr ⟨before ++ front, back ++ after, fun e => ?_⟩
    simp only [shown e, Option.map_some, List.append_assoc]

end Shows

theorem shows_join (sep : Text) (above below : List Text) :
    Shows fun e => some (Text.join sep (above ++ e.shown :: below)) := by
  cases above with
  | nil => exact .inr ⟨[], below.flatMap (sep ++ ·), fun e => rfl⟩
  | cons t above =>
    refine .inr ⟨t ++ above.flatMap (sep ++ ·) ++ sep, below.flatMap (sep ++ ·), fun e => ?_⟩
    simp [Text.join]

theorem shows_stack (above below : List Entity) :
    Shows fun e => some (shownStack (above ++ e :: below)) := by
  have shows := (shows_join [Text.space] (below.reverse.map Entity.shown)
    (above.reverse.map Entity.shown)).between (utf8 "[") (utf8 "]")
  simpa [shownStack] using shows

def entryLine? (entry : Text × Binding) : Option Text := entry.2.line? entry.1

namespace Interpreter

theorem shows_execLine (s : Interpreter) (n : Node) (above below : List Entity) :
    Shows fun e => some ((s.withStack (above ++ e :: below)).execLine n) := by
  have shows := (shows_stack above below).between
    (utf8 "exec " ++ shownNode n ++ utf8 " -- s:") (utf8 " l:" ++ shownLoops s.machine.loops)
  simpa [execLine, withStack] using shows

theorem shows_dump_stack (s : Interpreter) (above below : List Entity) :
    Shows fun e => (s.withStack (above ++ e :: below)).dump? := by
  unfold Interpreter.dump? StackLang.dump?
  simp only [withStack]
  change Shows fun e => (s.words.mapM entryLine?).map _
  cases s.words.mapM entryLine? with
  | none => exact .inl fun e => rfl
  | some lines =>
    have shows := (shows_stack above below).between (utf8 "# Stacky Dump\n  stack: ")
    simpa using shows _

end Interpreter

theorem Dictionary.exists_set (d : Dictionary) (name : Text) :
    ∃ before after : Dictionary, ∀ b, d.set name b = before ++ (name, b) :: after := by
  induction d with
  | nil => exact ⟨[], [], fun b => rfl⟩
  | cons entry rest ih =>
    obtain ⟨key, old⟩ := entry
    obtain ⟨before, after, split⟩ := ih
    by_cases same : key = name
    · exact ⟨[], rest, fun b => by simp [set, same]⟩
    · by_cases earlier : nameBefore name key
      · exact ⟨[], (key, old) :: rest, fun b => by simp [set, same, earlier]⟩
      · exact ⟨(key, old) :: before, after, fun b => by simp [set, same, earlier, split]⟩

theorem mapM_around {xs ys : Dictionary} {ts us : List Text} (first : xs.mapM entryLine? = some ts)
    (last : ys.mapM entryLine? = some us) {x : Text × Binding} {t : Text}
    (here : entryLine? x = some t) : (xs ++ x :: ys).mapM entryLine? = some (ts ++ t :: us) := by
  simp [List.mapM_append, first, last, here]

theorem shows_lines (before after : Dictionary) (name : Text) :
    Shows fun e => ((before ++ (name, .variable e) :: after).mapM entryLine?).map List.flatten := by
  cases first : before.mapM entryLine? with
  | none => exact .inl fun e => by simp [List.mapM_append, first]
  | some lines =>
    cases last : after.mapM entryLine? with
    | none => exact .inl fun e => by simp [List.mapM_append, first, last]
    | some others =>
      refine .inr ⟨lines.flatten ++ (utf8 "    " ++ name ++ utf8 " = "),
        utf8 "\n" ++ others.flatten, fun e => ?_⟩
      have line : entryLine? (name, .variable e) =
        some (utf8 "    " ++ name ++ utf8 " = " ++ e.shown ++ utf8 "\n") := rfl
      simp only [mapM_around first last line, Option.map_some, List.flatten_append,
        List.flatten_cons, List.append_assoc]

namespace Interpreter

def withVariable (s : Interpreter) (name : Text) (value : Entity) : Interpreter :=
  { s with words := s.words.set name (.variable value) }

theorem shows_dump_variable (s : Interpreter) (name : Text) :
    Shows fun e => (s.withVariable name e).dump? := by
  obtain ⟨before, after, split⟩ := s.words.exists_set name
  have names (e : Entity) : (s.words.set name (.variable e)).names =
      before.names ++ name :: after.names := by
    rw [split, Dictionary.names, List.map_append]
    rfl
  have shows := (shows_lines before after name).between
    (utf8 "# Stacky Dump\n  stack: " ++ shownStack s.machine.bench.stack ++ utf8 "\n" ++
      (if s.machine.loops = [] then []
        else utf8 "  loops: " ++ shownLoops s.machine.loops ++ utf8 "\n") ++
      utf8 "  dict: [" ++ Text.join [Text.space] (before.names ++ name :: after.names) ++
      utf8 "]\n") []
  simp only [List.append_nil, Option.map_map] at shows
  unfold Interpreter.dump? StackLang.dump? withVariable
  simp only [names]
  simp only [split]
  exact shows

/-- Different values are shown apart: alone, and in place of each other in a trace, in the stack of a
dump, and as a variable in one. Stacks are told apart as a whole where the names in them are tidy. -/
theorem shown_tells_values :
    (∀ a b : Entity, a.shown = b.shown → a = b) ∧
    (∀ (s : Interpreter) (n : Node) (above below : List Entity) (a b : Entity),
      (s.withStack (above ++ a :: below)).execLine n =
        (s.withStack (above ++ b :: below)).execLine n → a = b) ∧
    (∀ (s : Interpreter) (above below : List Entity) (a b : Entity) (t : Text),
      (s.withStack (above ++ a :: below)).dump? = some t →
        (s.withStack (above ++ b :: below)).dump? = some t → a = b) ∧
    (∀ (s : Interpreter) (name : Text) (a b : Entity) (t : Text),
      (s.withVariable name a).dump? = some t → (s.withVariable name b).dump? = some t → a = b) ∧
    (∀ xs ys : List Entity, (∀ e ∈ xs, e.Tidy) → (∀ e ∈ ys, e.Tidy) →
      shownStack xs = shownStack ys → xs = ys) := by
  refine ⟨?_, ?_, ?_, ?_, ?_⟩
  · exact fun a b same => Entity.shown_inj same
  · intro s n above below a b same
    exact (shows_execLine s n above below).inj (congrArg some same) rfl
  · intro s above below a b t here there
    exact (shows_dump_stack s above below).inj here there
  · intro s name a b t here there
    exact (shows_dump_variable s name).inj here there
  · exact fun xs ys tidy tidy' same => shownStack_inj tidy tidy' same

/-- A stray byte and the replacement character are told apart wherever they are shown. -/
theorem shown_tells_values_stray :
    let s : Interpreter := {}
    let stray := Entity.string [0xFF]
    let replaced := Entity.string [0xEF, 0xBF, 0xBD]
    stray.shown ≠ replaced.shown ∧
      (s.withStack [.number 1, stray]).execLine (.op (.op .dup)) ≠
        (s.withStack [.number 1, replaced]).execLine (.op (.op .dup)) ∧
      (s.withStack [.number 1, stray]).dump? ≠ (s.withStack [.number 1, replaced]).dump? ∧
      (s.withVariable (utf8 "x") stray).dump? ≠ (s.withVariable (utf8 "x") replaced).dump? ∧
      shownStack [.string (utf8 "1 ]"), .function (utf8 "w")] ≠ shownStack [.number 1, .nothing] := by
  intro s stray replaced
  have differ : stray ≠ replaced := by decide
  obtain ⟨alone, traced, stacked, bound, whole⟩ := shown_tells_values
  refine ⟨?_, ?_, ?_, ?_, ?_⟩
  · exact fun same => differ (alone _ _ same)
  · exact fun same => differ (traced s (.op (.op .dup)) [.number 1] [] _ _ same)
  · exact fun same => differ (stacked s [.number 1] [] _ _ _ rfl same.symm)
  · exact fun same => differ (bound s (utf8 "x") _ _ _ rfl same.symm)
  · intro same
    have tidy : ∀ e ∈ [Entity.string (utf8 "1 ]"), .function (utf8 "w")], e.Tidy := by decide
    have tidy' : ∀ e ∈ [Entity.number 1, .nothing], e.Tidy := by decide
    cases whole _ _ tidy tidy' same

end Interpreter

end StackLang
