import Mathlib.Data.List.TakeWhile
import StackLang.Command.Flags

/-! The grammar of the command line. Flags come first, each of them behind one dash or two, with its
value behind an equals sign or, unless it is a toggle, in the next argument. Reading stops at the
first argument that is no flag, or tells what is wrong with one. -/
namespace StackLang

namespace FlagKind

def isToggle : FlagKind → Bool
  | toggle _ => true
  | _ => false

def value (name : Text) : FlagKind → Text → Except FlagError FlagValue
  | toggle set, v =>
    match Flags.bool? v with
    | some b => .ok (.change (set b))
    | none => .error (.notBool name v)
  | text set, v => .ok (set v)
  | int set, v =>
    match Flags.int v with
    | .ok n => .ok (.change (set n))
    | .error (_, tooLarge) => .error (.notInt name v tooLarge)

end FlagKind

namespace Flags

/-- The argument is this text behind one dash or two. -/
inductive Dashed (body : Text) : Text → Prop
  | one (filled : body ≠ []) (single : body.head? ≠ some 0x2D) : Dashed body (0x2D :: body)
  | two : Dashed body (0x2D :: 0x2D :: body)

structure IsName (name : Text) : Prop where
  filled : name ≠ []
  undashed : name.head? ≠ some 0x2D
  unequal : 0x3D ∉ name

/-- A text that starts with a flag's name, and the value behind the equals sign if there is one. -/
inductive Names (name : Text) : Text → Option Text → Prop
  | bare (isName : IsName name) : Names name name none
  | equals (isName : IsName name) (v : Text) : Names name (name ++ 0x3D :: v) (some v)

/-- A flag that is given a value, in one argument or two. -/
inductive Given (name : Text) (kind : FlagKind) (v : Text) : List Text → Prop
  | joined {arg : Text} (dashed : Dashed (name ++ 0x3D :: v) arg) : Given name kind v [arg]
  | apart {arg : Text} (dashed : Dashed name arg) (takes : kind.isToggle = false) :
    Given name kind v [arg, v]

inductive Flag : List Text → FlagValue → Prop
  | alone {arg name : Text} {set : Bool → Change} (dashed : Dashed name arg)
    (kind : flagKind? name = some (.toggle set)) : Flag [arg] (.change (set true))
  | given {name v : Text} {k : FlagKind} {taken : List Text} {value : FlagValue}
    (given : Given name k v taken) (kind : flagKind? name = some k)
    (sets : k.value name v = .ok value) : Flag taken value

def helpNames : List Text := [utf8 "help", utf8 "h"]

/-- What is wrong with the flag that comes first. -/
inductive BadFlag : List Text → FlagError → Prop
  | malformed {arg body : Text} (dashed : Dashed body arg) (filled : body ≠ [])
    (unnamed : body.head? = some 0x2D ∨ body.head? = some 0x3D) (rest : List Text) :
    BadFlag (arg :: rest) (.malformed arg)
  | help {arg body name : Text} {v : Option Text} (dashed : Dashed body arg)
    (names : Names name body v) (asks : name ∈ helpNames) (rest : List Text) :
    BadFlag (arg :: rest) .help
  | undefined {arg body name : Text} {v : Option Text} (dashed : Dashed body arg)
    (names : Names name body v) (unknown : flagKind? name = none) (other : name ∉ helpNames)
    (rest : List Text) : BadFlag (arg :: rest) (.undefined name)
  | needsValue {arg name : Text} {k : FlagKind} (dashed : Dashed name arg)
    (kind : flagKind? name = some k) (takes : k.isToggle = false) : BadFlag [arg] (.needsValue name)
  | refused {name v : Text} {k : FlagKind} {taken : List Text} {e : FlagError}
    (given : Given name k v taken) (kind : flagKind? name = some k)
    (refused : k.value name v = .error e) (rest : List Text) : BadFlag (taken ++ rest) e

inductive Ends : List Text → List Text → Prop
  | nothing : Ends [] []
  | name {arg : Text} (plain : arg.head? ≠ some 0x2D ∨ arg = [0x2D]) (rest : List Text) :
    Ends (arg :: rest) (arg :: rest)
  | dashes (rest : List Text) : Ends (utf8 "--" :: rest) rest

/-- The arguments start with flags that set these values, and go on with the rest. -/
inductive Reads : List Text → List FlagValue → List Text → Prop
  | start (rest : List Text) : Reads rest [] rest
  | flag {taken args rest : List Text} {value : FlagValue} {values : List FlagValue}
    (first : Flag taken value) (later : Reads args values rest) :
    Reads (taken ++ args) (value :: values) rest

theorem body?_of_dashed {body arg : Text} (dashed : Dashed body arg) : body? arg = some body := by
  cases dashed with
  | two => rfl
  | one filled single =>
    cases body with
    | nil => exact absurd rfl filled
    | cons b bs =>
      have other : b ≠ 0x2D := fun same => single (congrArg Option.some same)
      unfold body?
      split
      · rename_i same
        cases same
        exact absurd rfl other
      · rename_i same
        cases same
        rfl
      · rename_i none
        exact absurd rfl (none b bs)

theorem dashed_of_body? {body arg : Text} (found : body? arg = some body) : Dashed body arg := by
  unfold body? at found
  split at found
  · cases found
    exact .two
  · rename_i b rest other
    cases found
    apply Dashed.one
    · exact List.cons_ne_nil b rest
    · intro same
      cases same
      exact other rfl
  · cases found

theorem plain_of_body? {arg : Text} (none : body? arg = none) :
    arg.head? ≠ some 0x2D ∨ arg = [0x2D] := by
  match arg with
  | [] => exact .inl nofun
  | [b] =>
    by_cases dash : b = 0x2D
    · exact .inr (by rw [dash])
    · exact .inl fun same => dash (Option.some.inj same)
  | b :: c :: rest =>
    refine .inl fun same => ?_
    cases same
    by_cases dash : c = 0x2D
    · subst dash
      cases none
    · have dashed : Dashed (c :: rest) (0x2D :: c :: rest) :=
        .one (List.cons_ne_nil c rest) fun same => dash (Option.some.inj same)
      cases none.symm.trans (body?_of_dashed dashed)

theorem body?_of_plain {arg : Text} (plain : arg.head? ≠ some 0x2D ∨ arg = [0x2D]) :
    body? arg = none := by
  rcases plain with other | rfl
  · cases found : body? arg with
    | none => rfl
    | some body => cases dashed_of_body? found <;> exact absurd rfl other
  · rfl

theorem split_of_names {name body : Text} {v : Option Text} (names : Names name body v) :
    split body = (name, v) := by
  have unequal {b : UInt8} {bs : Text} (isName : IsName (b :: bs)) :
      ∀ c ∈ bs, decide (c ≠ 0x3D) = true := by
    intro c mem
    apply decide_eq_true
    intro same
    exact isName.unequal (same ▸ List.mem_cons_of_mem b mem)
  cases names with
  | bare isName =>
    cases name with
    | nil => exact absurd rfl isName.filled
    | cons b bs =>
      have all := unequal isName
      have none : bs.dropWhile (· ≠ 0x3D) = [] := List.dropWhile_eq_nil_iff.2 all
      simp only [split, none, List.takeWhile_eq_self_iff.2 all]
  | equals isName v =>
    cases name with
    | nil => exact absurd rfl isName.filled
    | cons b bs =>
      have all := unequal isName
      have before : (bs ++ 0x3D :: v).takeWhile (· ≠ 0x3D) = bs := by
        rw [List.takeWhile_append_of_pos all]
        simp
      have behind : (bs ++ 0x3D :: v).dropWhile (· ≠ 0x3D) = 0x3D :: v := by
        rw [List.dropWhile_append_of_pos all]
        simp
      simp only [List.cons_append, split, before, behind]

theorem exists_names {body : Text} (filled : body ≠ [])
    (named : ¬ (body.head? = some 0x2D ∨ body.head? = some 0x3D)) : ∃ name v, Names name body v := by
  cases body with
  | nil => exact absurd rfl filled
  | cons b bs =>
    have isName : IsName (b :: bs.takeWhile (· ≠ 0x3D)) := by
      refine ⟨List.cons_ne_nil _ _, fun same => named (.inl same), ?_⟩
      apply List.not_mem_cons_of_ne_of_not_mem
      · exact fun same => named (.inr (congrArg Option.some same.symm))
      · intro mem
        have other := List.mem_takeWhile_imp mem
        exact of_decide_eq_true other rfl
    have whole := List.takeWhile_append_dropWhile (p := (· ≠ 0x3D)) (l := bs)
    cases behind : bs.dropWhile (· ≠ 0x3D) with
    | nil =>
      have bare := Names.bare isName
      rw [behind, List.append_nil] at whole
      rw [whole] at bare
      exact ⟨b :: bs, none, bare⟩
    | cons e v =>
      have equals : e = 0x3D := by
        have first := List.head?_dropWhile_not (· ≠ 0x3D) bs
        rw [behind] at first
        simpa using first
      have valued := Names.equals isName v
      rw [behind, equals] at whole
      rw [List.cons_append, whole] at valued
      exact ⟨_, some v, valued⟩

theorem isName_of_kind {name : Text} {k : FlagKind} (kind : flagKind? name = some k) :
    IsName name := by
  obtain ⟨found, listed, -⟩ := Option.map_eq_some_iff.1 kind
  have named : ∀ f ∈ flagKinds, utf8 f.1 ≠ [] ∧ (utf8 f.1).head? ≠ some 0x2D ∧ 0x3D ∉ utf8 f.1 := by
    decide
  have same : utf8 found.1 = name := by simpa using List.find?_some listed
  obtain ⟨filled, undashed, unequal⟩ := named found (List.mem_of_find?_eq_some listed)
  rw [same] at filled undashed unequal
  exact ⟨filled, undashed, unequal⟩

structure Opens (arg body name : Text) (v : Option Text) : Prop where
  opened : body? arg = some body
  goesOn : arg ≠ utf8 "--"
  named : ¬ (body = [] ∨ body.head? = some 0x2D ∨ body.head? = some 0x3D)
  parts : split body = (name, v)

theorem opens {arg body name : Text} {v : Option Text} (dashed : Dashed body arg)
    (names : Names name body v) : Opens arg body name v := by
  have head : ¬ (body = [] ∨ body.head? = some 0x2D ∨ body.head? = some 0x3D) := by
    have isName : IsName name := by cases names <;> assumption
    have starts : body ≠ [] ∧ body.head? = name.head? := by
      cases name with
      | nil => exact absurd rfl isName.filled
      | cons b bs => cases names <;> exact ⟨nofun, rfl⟩
    rintro (empty | dash | equals)
    · exact starts.1 empty
    · exact isName.undashed (starts.2.symm.trans dash)
    · exact isName.unequal (List.mem_of_head? (starts.2.symm.trans equals))
  refine ⟨body?_of_dashed dashed, ?_, head, split_of_names names⟩
  rintro rfl
  have empty : body = [] := Option.some.inj ((body?_of_dashed dashed).symm.trans rfl)
  exact head (.inl empty)

variable {args rest names taken : List Text} {value : FlagValue} {e : FlagError}

theorem parse_given {name v : Text} {k : FlagKind} (given : Given name k v taken)
    (kind : flagKind? name = some k) (rest : List Text) :
    match k.value name v with
    | .ok value => parse (taken ++ rest) = (parse rest).after value
    | .error e => (parse (taken ++ rest)).error = some e := by
  have isName := isName_of_kind kind
  cases given with
  | joined dashed =>
    obtain ⟨opened, goesOn, named, parts⟩ := opens dashed (.equals isName v)
    simp only [List.cons_append, List.nil_append, parse, opened, if_neg goesOn, if_neg named, parts,
      kind]
    cases k with
    | toggle set =>
      simp only [FlagKind.value]
      cases bool? v <;> rfl
    | text set => rfl
    | int set =>
      simp only [FlagKind.value]
      cases int v <;> rfl
  | apart dashed takes =>
    obtain ⟨opened, goesOn, named, parts⟩ := opens dashed (.bare isName)
    simp only [List.cons_append, List.nil_append, parse, opened, if_neg goesOn, if_neg named, parts,
      kind]
    cases k with
    | toggle set => cases takes
    | text set => rfl
    | int set =>
      simp only [FlagKind.value]
      cases int v <;> rfl

theorem parse_flag (flag : Flag taken value) (rest : List Text) :
    parse (taken ++ rest) = (parse rest).after value := by
  cases flag with
  | alone dashed kind =>
    obtain ⟨opened, goesOn, named, parts⟩ := opens dashed (.bare (isName_of_kind kind))
    simp only [List.cons_append, List.nil_append, parse, opened, if_neg goesOn, if_neg named, parts,
      kind]
  | given given kind sets =>
    have read := parse_given given kind rest
    rw [sets] at read
    exact read

theorem parse_ends (ends : Ends args names) : parse args = { rest := names } := by
  cases ends with
  | nothing => rfl
  | dashes rest => rfl
  | name plain rest => simp only [parse, body?_of_plain plain]

theorem parse_badFlag (bad : BadFlag args e) : (parse args).error = some e := by
  cases bad with
  | @malformed arg body dashed filled unnamed rest =>
    have goesOn : arg ≠ utf8 "--" := by
      rintro rfl
      exact filled (Option.some.inj ((body?_of_dashed dashed).symm.trans rfl))
    simp only [parse, body?_of_dashed dashed, if_neg goesOn, if_pos (Or.inr unnamed)]
  | help dashed names asks rest =>
    obtain ⟨opened, goesOn, named, parts⟩ := opens dashed names
    have unknown : ∀ name ∈ helpNames, flagKind? name = none ∧
        (name = utf8 "help" ∨ name = utf8 "h") := by decide
    obtain ⟨kind, asks⟩ := unknown _ asks
    simp only [parse, opened, if_neg goesOn, if_neg named, parts, kind, if_pos asks]
  | undefined dashed names unknown other rest =>
    obtain ⟨opened, goesOn, named, parts⟩ := opens dashed names
    have asks (name : Text) (asks : name = utf8 "help" ∨ name = utf8 "h") : name ∈ helpNames := by
      rcases asks with rfl | rfl <;> decide
    simp only [parse, opened, if_neg goesOn, if_neg named, parts, unknown, if_neg (mt (asks _) other)]
  | @needsValue arg name k dashed kind takes =>
    obtain ⟨opened, goesOn, named, parts⟩ := opens dashed (.bare (isName_of_kind kind))
    simp only [parse, opened, if_neg goesOn, if_neg named, parts, kind]
    cases k with
    | toggle set => cases takes
    | text | int => rfl
  | refused given kind refused rest =>
    have read := parse_given given kind rest
    rw [refused] at read
    exact read

theorem parse_reads {values : List FlagValue} (reads : Reads args values rest) :
    parse args = { parse rest with values := values ++ (parse rest).values } := by
  induction reads with
  | start rest => rfl
  | flag first later ih => rw [parse_flag first, ih, Parsed.after, List.cons_append]

theorem given_or_not (name v : Text) (k : FlagKind) (given : Given name k v taken)
    (kind : flagKind? name = some k) (rest : List Text) :
    (∃ e, BadFlag (taken ++ rest) e) ∨ ∃ value, Flag taken value := by
  cases sets : k.value name v with
  | ok value => exact .inr ⟨value, .given given kind sets⟩
  | error e => exact .inl ⟨e, .refused given kind sets rest⟩

/-- Every list of arguments has ended its flags, or starts with a bad one, or with one that sets
something. -/
theorem ends_or_flag (args : List Text) :
    (∃ names, Ends args names) ∨ (∃ e, BadFlag args e) ∨
      ∃ taken value rest, args = taken ++ rest ∧ taken ≠ [] ∧ Flag taken value := by
  cases args with
  | nil => exact .inl ⟨[], .nothing⟩
  | cons arg rest =>
    cases found : body? arg with
    | none => exact .inl ⟨arg :: rest, .name (plain_of_body? found) rest⟩
    | some body =>
      have dashed := dashed_of_body? found
      by_cases last : body = []
      · subst last
        cases dashed with
        | one filled => exact absurd rfl filled
        | two => exact .inl ⟨rest, .dashes rest⟩
      · right
        by_cases unnamed : body.head? = some 0x2D ∨ body.head? = some 0x3D
        · exact .inl ⟨.malformed arg, .malformed dashed last unnamed rest⟩
        · obtain ⟨name, v, names⟩ := exists_names last unnamed
          cases kind : flagKind? name with
          | none =>
            left
            by_cases asks : name ∈ helpNames
            · exact ⟨.help, .help dashed names asks rest⟩
            · exact ⟨.undefined name, .undefined dashed names kind asks rest⟩
          | some k =>
            cases names with
            | equals isName v =>
              have given : Given name k v [arg] := .joined dashed
              rcases given_or_not name v k given kind rest with bad | ⟨value, flag⟩
              · exact .inl bad
              · exact .inr ⟨[arg], value, rest, rfl, nofun, flag⟩
            | bare isName =>
              cases takes : k.isToggle with
              | true =>
                cases k with
                | toggle set => exact .inr ⟨[arg], _, rest, rfl, nofun, .alone dashed kind⟩
                | text | int => cases takes
              | false =>
                cases rest with
                | nil => exact .inl ⟨.needsValue body, .needsValue dashed kind takes⟩
                | cons v rest =>
                  have given : Given body k v [arg, v] := .apart dashed takes
                  rcases given_or_not body v k given kind rest with bad | ⟨value, flag⟩
                  · exact .inl bad
                  · exact .inr ⟨[arg, v], value, rest, rfl, nofun, flag⟩

theorem reads_args (args : List Text) :
    ∃ values rest, Reads args values rest ∧ ((∃ names, Ends rest names) ∨ ∃ e, BadFlag rest e) := by
  induction length : args.length using Nat.strongRecOn generalizing args with
  | ind n ih =>
    rcases ends_or_flag args with ends | bad | ⟨taken, value, rest, rfl, some, flag⟩
    · exact ⟨[], args, .start args, .inl ends⟩
    · exact ⟨[], args, .start args, .inr bad⟩
    · have shorter : rest.length < n := by
        rw [← length, List.length_append]
        have taken := List.length_pos_iff.2 some
        omega
      obtain ⟨values, left, reads, stops⟩ := ih rest.length shorter rest rfl
      exact ⟨value :: values, left, .flag flag reads, stops⟩

theorem parse_ok_iff {values : List FlagValue} :
    parse args = { values, rest := names } ↔ ∃ left, Reads args values left ∧ Ends left names := by
  constructor
  · intro parsed
    obtain ⟨values', left, reads, ⟨names', ends⟩ | ⟨e, bad⟩⟩ := reads_args args
    · have same := parse_reads reads
      rw [parse_ends ends, parsed] at same
      simp only [Parsed.mk.injEq, List.append_nil, and_true] at same
      obtain ⟨rfl, rfl⟩ := same
      exact ⟨left, reads, ends⟩
    · have failed := congrArg Parsed.error (parse_reads reads)
      rw [parsed, parse_badFlag bad] at failed
      cases failed
  · rintro ⟨left, reads, ends⟩
    rw [parse_reads reads, parse_ends ends, List.append_nil]

theorem parse_error_iff :
    (parse args).error = some e ↔ ∃ values left, Reads args values left ∧ BadFlag left e := by
  constructor
  · intro failed
    obtain ⟨values, left, reads, ⟨names, ends⟩ | ⟨e', bad⟩⟩ := reads_args args
    · rw [parse_reads reads, parse_ends ends] at failed
      cases failed
    · rw [parse_reads reads] at failed
      cases (parse_badFlag bad).symm.trans failed
      exact ⟨values, left, reads, bad⟩
  · rintro ⟨values, left, reads, bad⟩
    rw [parse_reads reads]
    exact parse_badFlag bad

end Flags
end StackLang
