import StackLang.Proofs.Command.Arguments
import StackLang.Proofs.Session.Settings

/-! The layers of settings: flags over the file that they name, and that file over the defaults.
Every setting goes by its own last mention, whatever is said of the others. -/
namespace StackLang

namespace Change

def trace? : Change → Option Bool
  | trace on => some on
  | _ => none

def dumpTokens? : Change → Option Bool
  | dumpTokens on => some on
  | _ => none

def dumpTree? : Change → Option Bool
  | dumpTree on => some on
  | _ => none

def dumpState? : Change → Option Bool
  | dumpState on => some on
  | _ => none

def newline? : Change → Option Text
  | newline mode => some mode
  | _ => none

def maxCallDepth? : Change → Option Int
  | maxCallDepth depth => some depth
  | _ => none

end Change

namespace Settings

/-- The last flag for a setting holds, or else the last change of the file, or else the default. -/
structure Layered (flags file : List Change) (s : Settings) : Prop where
  trace : s.trace = lastOr Change.trace? (lastOr Change.trace? false file) flags
  dumpTokens : s.dumpTokens = lastOr Change.dumpTokens? (lastOr Change.dumpTokens? false file) flags
  dumpTree : s.dumpTree = lastOr Change.dumpTree? (lastOr Change.dumpTree? false file) flags
  dumpState : s.dumpState = lastOr Change.dumpState? (lastOr Change.dumpState? false file) flags
  newline : s.newline = lastOr Change.newline? (lastOr Change.newline? (utf8 "auto") file) flags
  maxCallDepth :
    s.maxCallDepth = lastOr Change.maxCallDepth? (lastOr Change.maxCallDepth? 0 file) flags

theorem layered (flags file : List Change) :
    Layered flags file (applyAll (applyAll {} file) flags) := by
  have twice {α : Type} (get : Settings → α) {of? : Change → Option α}
      (sets : ∀ s c, get (apply s c) = (of? c).getD (get s)) :
      get (applyAll (applyAll {} file) flags) = lastOr of? (lastOr of? (get {}) file) flags := by
    have first := foldl_lastOr get sets {} file
    have second := foldl_lastOr get sets (applyAll {} file) flags
    rw [← first]
    exact second
  constructor
  · exact twice (·.trace) fun s c => by cases c <;> rfl
  · exact twice (·.dumpTokens) fun s c => by cases c <;> rfl
  · exact twice (·.dumpTree) fun s c => by cases c <;> rfl
  · exact twice (·.dumpState) fun s c => by cases c <;> rfl
  · exact twice (·.newline) fun s c => by cases c <;> rfl
  · exact twice (·.maxCallDepth) fun s c => by cases c <;> rfl

def modes : List Text := [utf8 "auto", utf8 "always", utf8 "never"]

def invalidMode (mode : Text) : Failure :=
  .plain (utf8 "invalid newline mode " ++ mode.quoted ++ utf8 ", want auto, always or never")

theorem check_valid {s : Settings} (valid : s.newline ∈ modes) : s.check = none :=
  if_pos (List.contains_iff_mem.2 valid)

theorem check_invalid {s : Settings} (invalid : s.newline ∉ modes) :
    s.check = some (invalidMode s.newline) :=
  if_neg (mt List.contains_iff_mem.1 invalid)

/-- The changes that the file of this name makes; no name is no file. -/
inductive Loads (fs : Files) : Text → List Change → Prop
  | unnamed : Loads fs [] []
  | file {path text : Text} {file : List Change} (named : path ≠ []) (opened : fs.open path = .ok text)
    (read : File.read text = (file, none))
    (valid : lastOr Change.newline? (utf8 "auto") file ∈ modes) : Loads fs path file

/-- Why the file of this name cannot be used. -/
inductive Unusable (fs : Files) : Text → Failure → Prop
  | unreadable {path : Text} {f : Failure} (named : path ≠ []) (opened : fs.open path = .error f) :
    Unusable fs path f
  | malformed {path text : Text} {file : List Change} {f : Failure} (named : path ≠ [])
    (opened : fs.open path = .ok text) (read : File.read text = (file, some f)) :
    Unusable fs path (.labelled (utf8 "config " ++ path) f)
  | mode {path text : Text} {file : List Change} (named : path ≠ [])
    (opened : fs.open path = .ok text) (read : File.read text = (file, none))
    (invalid : lastOr Change.newline? (utf8 "auto") file ∉ modes) :
    Unusable fs path (invalidMode (lastOr Change.newline? (utf8 "auto") file))

variable {fs : Files} {path : Text} {file : List Change} {f : Failure}

theorem newline_file (file : List Change) :
    (applyAll {} file).newline = lastOr Change.newline? (utf8 "auto") file :=
  (layered [] file).newline

theorem load_of_loads (loads : Loads fs path file) (named : path ≠ []) :
    load fs path = (applyAll {} file, none) := by
  cases loads with
  | unnamed => exact absurd rfl named
  | file _ opened read valid =>
    rw [← newline_file] at valid
    simp only [load, opened, read, check_valid valid]

theorem load_of_unusable (unusable : Unusable fs path f) : (load fs path).2 = some f := by
  cases unusable with
  | unreadable named opened => simp only [load, opened]
  | malformed named opened read => simp only [load, opened, read]
  | mode named opened read invalid =>
    rw [← newline_file] at invalid ⊢
    simp only [load, opened, read, check_invalid invalid]

theorem loads_or_unusable (fs : Files) (path : Text) :
    (∃ file, Loads fs path file) ∨ ∃ f, path ≠ [] ∧ Unusable fs path f := by
  by_cases named : path = []
  · subst named
    exact .inl ⟨[], .unnamed⟩
  · cases opened : fs.open path with
    | error f => exact .inr ⟨f, named, .unreadable named opened⟩
    | ok text =>
      cases read : File.read text with
      | mk file failure =>
        cases failure with
        | some f => exact .inr ⟨_, named, .malformed named opened read⟩
        | none =>
          by_cases valid : lastOr Change.newline? (utf8 "auto") file ∈ modes
          · exact .inl ⟨file, .file named opened read valid⟩
          · exact .inr ⟨_, named, .mode named opened read valid⟩

end Settings

namespace Flags

def path? : FlagValue → Option Text
  | .config path => some path
  | .change _ => none

theorem config_eq (values : List FlagValue) : config values = lastOr path? [] values :=
  foldl_lastOr id (fun _ v => by cases v <;> rfl) [] values

/-- The arguments are flags that set these values, and then these names. -/
def Asks (args : List Text) (values : List FlagValue) (names : List Text) : Prop :=
  ∃ left, Reads args values left ∧ Ends left names

end Flags

open Flags (Asks Reads BadFlag path? changes)
open Settings (Loads Unusable Layered modes invalidMode)

/-- Why the arguments are refused. -/
inductive Refused (fs : Files) (args : List Text) : Failure → Prop
  | flag {values : List FlagValue} {left : List Text} {e : FlagError} (reads : Reads args values left)
    (bad : BadFlag left e) : Refused fs args (.plain e.message)
  | file {values : List FlagValue} {names : List Text} {f : Failure} (asks : Asks args values names)
    (unusable : Unusable fs (lastOr path? [] values) f) : Refused fs args f
  | mode {values : List FlagValue} {names : List Text} {file : List Change} {mode : Text}
    (asks : Asks args values names) (loads : Loads fs (lastOr path? [] values) file)
    (last : mode =
      lastOr Change.newline? (lastOr Change.newline? (utf8 "auto") file) (changes values))
    (invalid : mode ∉ modes) : Refused fs args (invalidMode mode)

section

variable {fs : Files} {name : Text} {args names : List Text} {values : List FlagValue}
  {file : List Change} {f : Failure}

theorem parseArgs_badFlag {left : List Text} {e : FlagError} (reads : Reads args values left)
    (bad : BadFlag left e) : (parseArgs fs name args).failure = some (.plain e.message) := by
  have failed := Flags.parse_error_iff.2 ⟨values, left, reads, bad⟩
  cases e <;> simp only [parseArgs, failed]

theorem parseArgs_unusable (asks : Asks args values names)
    (unusable : Unusable fs (lastOr path? [] values) f) :
    (parseArgs fs name args).failure = some f := by
  have parsed := Flags.parse_ok_iff.2 asks
  have named : lastOr path? [] values ≠ [] := by cases unusable <;> assumption
  have loaded := Settings.load_of_unusable unusable
  simp only [parseArgs, parsed, Flags.config_eq, if_neg named]
  generalize Settings.load fs (lastOr path? [] values) = load at loaded ⊢
  obtain ⟨s, failure⟩ := load
  cases loaded
  rfl

theorem parseArgs_loads (asks : Asks args values names)
    (loads : Loads fs (lastOr path? [] values) file) :
    let settings := Settings.applyAll (Settings.applyAll {} file) (changes values)
    parseArgs fs name args = { settings, names, failure := settings.check } := by
  have parsed := Flags.parse_ok_iff.2 asks
  simp only [parseArgs, parsed, Flags.config_eq]
  by_cases named : lastOr path? [] values = []
  · rw [named] at loads
    cases loads with
    | unnamed => simp only [if_pos named, Settings.applyAll, List.foldl_nil]
    | file filled => exact absurd rfl filled
  · simp only [if_neg named, Settings.load_of_loads loads named]

theorem asks_unique {values' : List FlagValue} {names' : List Text} (asks : Asks args values names) :
    Asks args values' names' ↔ values' = values ∧ names' = names := by
  have parsed := Flags.parse_ok_iff.2 asks
  constructor
  · intro other
    have same := parsed.symm.trans (Flags.parse_ok_iff.2 other)
    simp only [Flags.Parsed.mk.injEq, and_true] at same
    exact ⟨same.1.symm, same.2.symm⟩
  · rintro ⟨rfl, rfl⟩
    exact asks

/-- The arguments are refused, or ask for settings that are valid. -/
theorem refused_or_asks (fs : Files) (name : Text) (args : List Text) :
    (∃ f, Refused fs args f ∧ (parseArgs fs name args).failure = some f) ∨
      ∃ values names file, Asks args values names ∧ Loads fs (lastOr path? [] values) file ∧
        let settings := Settings.applyAll (Settings.applyAll {} file) (changes values)
        parseArgs fs name args = { settings, names } := by
  obtain ⟨values, left, reads, ⟨names, ends⟩ | ⟨e, bad⟩⟩ := Flags.reads_args args
  · have asks : Asks args values names := ⟨left, reads, ends⟩
    rcases Settings.loads_or_unusable fs (lastOr path? [] values) with ⟨file, loads⟩ | ⟨f, -, unusable⟩
    · have last := (Settings.layered (changes values) file).newline
      by_cases valid : (Settings.applyAll (Settings.applyAll {} file) (changes values)).newline ∈ modes
      · right
        refine ⟨values, names, file, asks, loads, ?_⟩
        rw [parseArgs_loads asks loads, Settings.check_valid valid]
      · left
        refine ⟨_, .mode asks loads last valid, ?_⟩
        rw [parseArgs_loads asks loads, Settings.check_invalid valid]
    · exact .inl ⟨f, .file asks unusable, parseArgs_unusable asks unusable⟩
  · exact .inl ⟨_, .flag reads bad, parseArgs_badFlag reads bad⟩

theorem failure_of_refused (refused : Refused fs args f) :
    (parseArgs fs name args).failure = some f := by
  cases refused with
  | flag reads bad => exact parseArgs_badFlag reads bad
  | file asks unusable => exact parseArgs_unusable asks unusable
  | @mode values names file mode asks loads last invalid =>
    rw [← (Settings.layered (changes values) file).newline] at last
    subst last
    rw [parseArgs_loads asks loads]
    exact Settings.check_invalid invalid

end

/-- What is asked for when nothing is refused: each of the settings by its last flag, or else by the
file that was named last, or else by default, and the names behind the flags. -/
theorem arguments_are_layered (fs : Files) (name : Text) (args : List Text) :
    let asked := parseArgs fs name args
    (asked.failure = none → ∃ values file,
      (∀ values' names', Asks args values' names' ↔ values' = values ∧ names' = asked.names) ∧
      Loads fs (lastOr path? [] values) file ∧ Layered (changes values) file asked.settings) ∧
    ∀ f, asked.failure = some f ↔ Refused fs args f := by
  intro asked
  constructor
  · intro succeeds
    rcases refused_or_asks fs name args with ⟨f, -, failed⟩ | ⟨values, names, file, asks, loads, parsed⟩
    · cases succeeds.symm.trans failed
    · have settings := congrArg Invocation.settings parsed
      have named := congrArg Invocation.names parsed
      refine ⟨values, file, fun values' names' => ?_, loads, ?_⟩
      · rw [show asked.names = names from named]
        exact asks_unique asks
      · rw [show asked.settings = _ from settings]
        exact Settings.layered (changes values) file
  · intro f
    constructor
    · intro failed
      rcases refused_or_asks fs name args with ⟨g, refused, same⟩ | ⟨_, _, _, _, _, parsed⟩
      · cases same.symm.trans failed
        exact refused
      · cases (congrArg Invocation.failure parsed).symm.trans failed
    · exact failure_of_refused

def quietTrace : Files := [(utf8 "c", utf8 "trace: true\nnewline: never\n")]

def repeatedFlags : List Text :=
  [utf8 "--config=b", utf8 "-newline", utf8 "always", utf8 "-newline=auto", utf8 "-dump-ast",
    utf8 "-config", utf8 "c", utf8 "x", utf8 "-y"]

/-- Of two files the one that was named last is read, and the other one is not missed. A flag takes
the place of one of its two settings, even in front of its name. -/
theorem arguments_are_layered_repeated :
    let asked := parseArgs quietTrace [] repeatedFlags
    asked.failure = none ∧ asked.settings = { trace := true, dumpTree := true } ∧
      (∃ values, Asks repeatedFlags values [utf8 "x", utf8 "-y"] ∧
        Loads quietTrace (lastOr path? [] values) [.trace true, .newline (utf8 "never")] ∧
        Layered (changes values) [.trace true, .newline (utf8 "never")] asked.settings) ∧
      Refused [] [utf8 "-h"] (.plain FlagError.help.message) := by
  intro asked
  let flags : List FlagValue := [.config (utf8 "b"), .change (.newline (utf8 "always")),
    .change (.newline (utf8 "auto")), .change (.dumpTree true), .config (utf8 "c")]
  let file : List Change := [.trace true, .newline (utf8 "never")]
  have asks : Asks repeatedFlags flags [utf8 "x", utf8 "-y"] :=
    Flags.parse_ok_iff.1 (by decide +kernel)
  have read : Settings.File.read (utf8 "trace: true\nnewline: never\n") = (file, none) := by
    decide +kernel
  have loads : Loads quietTrace (utf8 "c") file := .file (by decide) rfl read (by decide)
  have parsed : asked = { settings := { trace := true, dumpTree := true }
                          names := [utf8 "x", utf8 "-y"] } := parseArgs_loads asks loads
  obtain ⟨values, others, unique, loads', layered⟩ :=
    (arguments_are_layered quietTrace [] repeatedFlags).1 (congrArg Invocation.failure parsed)
  obtain ⟨rfl, -⟩ := (unique _ _).1 asks
  cases loads' with
  | file _ opened read' valid =>
    cases opened
    cases read.symm.trans read'
    refine ⟨by rw [parsed], by rw [parsed], ⟨flags, asks, loads, layered⟩, ?_⟩
    exact ((arguments_are_layered [] [] [utf8 "-h"]).2 _).1 rfl

end StackLang
