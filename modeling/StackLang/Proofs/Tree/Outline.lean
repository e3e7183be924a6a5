import Mathlib.Data.List.TakeWhile
import Mathlib.Tactic.IntervalCases
import StackLang.Proofs.Tree.Printable
import StackLang.Tree.Outline

/-! When a tree can be written as a document. A document ends early at a string that is not valid
UTF-8; in the document of a program only its own strings can be such, since all else is ASCII. -/
namespace StackLang

theorem Text.isValid_of_ascii {t : Text} (small : ∀ b ∈ t, b.toNat < 0x80) : t.isValid = true := by
  rw [isValid, glyphs_ascii small, List.all_map]
  exact List.all_eq_true.2 fun _ _ => rfl

theorem IsName.isValid {name : Text} (named : IsName name) : name.isValid = true := by
  refine Text.isValid_of_ascii fun b mem => ?_
  have identifier := named.identifier
  cases name with
  | nil => cases mem
  | cons first rest =>
    simp only [isIdentifier, Bool.and_eq_true, List.all_eq_true] at identifier
    rcases List.mem_cons.1 mem with rfl | later
    · exact isWordByte_small (isWordByte_of_letter identifier.1)
    · exact isWordByte_small (identifier.2 b later)

theorem Text.isValid_decimal (n : Int) : (Text.decimal n).isValid = true := by
  have digits (m : Nat) (b : UInt8) (mem : b ∈ numeral 8 m) : b.toNat < 0x80 := by
    have range := isDigitByte_iff.1 (numeral_digits m b mem)
    omega
  refine Text.isValid_of_ascii fun b mem => ?_
  cases n with
  | ofNat m => exact digits m b mem
  | negSucc m =>
    rcases List.mem_cons.1 mem with rfl | later
    · decide
    · exact digits (m + 1) b later

namespace Yaml

theorem chars?_of_isValid {t : Text} (valid : t.isValid = true) : ∃ cs, chars? t = some cs := by
  have chars : ∀ g ∈ t.glyphs, ∃ c, g = .char c := by
    intro g mem
    have holds := List.all_eq_true.1 valid g mem
    cases g with
    | char c => exact ⟨c, rfl⟩
    | stray b => cases holds
  unfold chars?
  generalize t.glyphs = gs at chars
  induction gs with
  | nil => exact ⟨[], rfl⟩
  | cons g gs ih =>
    obtain ⟨⟨c, rfl⟩, later⟩ := List.forall_mem_cons.1 chars
    obtain ⟨cs, read⟩ := ih later
    exact ⟨c :: cs, by rw [List.mapM_cons, read]; rfl⟩

def Clean (y : Yaml) : Prop := ∀ place indent, Step.stray ∉ y.steps place indent

theorem textStep_ne_stray {value : Text} (valid : value.isValid = true) (place : Place)
    (indent : Nat) (style : List Char → Style) : textStep place indent value style ≠ .stray := by
  obtain ⟨cs, read⟩ := chars?_of_isValid valid
  unfold textStep
  rw [read]
  exact Step.noConfusion

theorem clean_int (n : Int) : (int n).Clean := fun place indent mem =>
  textStep_ne_stray (Text.isValid_decimal n) place indent _ (List.mem_singleton.1 mem).symm

theorem clean_text {value : Text} (valid : value.isValid = true) : (text value).Clean :=
  fun place indent mem => textStep_ne_stray valid place indent _ (List.mem_singleton.1 mem).symm

theorem clean_quoted {value : Text} (valid : value.isValid = true) : (quoted value).Clean :=
  fun place indent mem => textStep_ne_stray valid place indent _ (List.mem_singleton.1 mem).symm

theorem clean_seq {items : List Yaml} (each : ∀ y ∈ items, y.Clean) : (seq items).Clean := by
  have inside (indent : Nat) : Step.stray ∉ itemSteps indent items := by
    induction items with
    | nil => exact List.not_mem_nil
    | cons y items ih =>
      obtain ⟨here, later⟩ := List.forall_mem_cons.1 each
      rw [itemSteps, List.mem_append]
      exact not_or.2 ⟨here _ _, ih later⟩
  intro place indent
  simp [steps, inside]

theorem clean_map {entries : List (Text × Yaml)}
    (each : ∀ entry ∈ entries, entry.1.isValid = true ∧ entry.2.Clean) : (map entries).Clean := by
  have inside (indent : Nat) : Step.stray ∉ entrySteps indent entries := by
    induction entries with
    | nil => exact List.not_mem_nil
    | cons entry entries ih =>
      obtain ⟨⟨key, value⟩, later⟩ := List.forall_mem_cons.1 each
      rw [entrySteps, pairSteps, List.mem_append, List.mem_cons]
      exact not_or.2 ⟨not_or.2 ⟨(textStep_ne_stray key _ _ _).symm, value _ _⟩, ih later⟩
  intro place indent
  simp [steps, inside]

theorem Clean.pieces {doc : Yaml} (clean : doc.Clean) : doc.pieces.2 = true := by
  have all : (doc.steps .root 0).takeWhile (· ≠ .stray) = doc.steps .root 0 := by
    rw [List.takeWhile_eq_self_iff]
    intro step mem
    exact decide_eq_true fun stray => clean _ _ (stray ▸ mem)
  simp only [Yaml.pieces, all, if_pos]

end Yaml

namespace Node

/-- The strings in it are valid UTF-8. -/
def Legible (n : Node) : Prop := ∀ t ∈ n.tokens, t.kind = .string → t.text.isValid = true

theorem legible_of_mem {body : List Node} {n : Node} (mem : n ∈ body)
    (legible : ∀ t ∈ tokensOfAll body, t.kind = .string → t.text.isValid = true) : n.Legible := by
  induction body with
  | nil => cases mem
  | cons m body ih =>
    obtain ⟨here, later⟩ := List.forall_mem_append.1 legible
    rcases List.mem_cons.1 mem with rfl | mem
    · exact here
    · exact ih mem later

theorem clean_entry {key : String} {value : Yaml} (valid : (utf8 key).isValid = true)
    (clean : value.Clean) : (entry key value).Clean :=
  Yaml.clean_map (List.forall_mem_singleton.2 ⟨valid, clean⟩)

theorem clean_branches {yes no : List Yaml} (first : ∀ y ∈ yes, y.Clean)
    (second : ∀ y ∈ no, y.Clean) : (branches yes no).Clean := by
  have yesKey : (utf8 "then").isValid = true := by decide +kernel
  have noKey : (utf8 "else").isValid = true := by decide +kernel
  refine Yaml.clean_map (List.forall_mem_cons.2 ⟨⟨yesKey, Yaml.clean_seq first⟩, ?_⟩)
  split
  · exact fun _ mem => absurd mem List.not_mem_nil
  · exact List.forall_mem_singleton.2 ⟨noKey, Yaml.clean_seq second⟩

theorem isValid_title {kind : Kind} (operation : kind.isOperation = true) :
    kind.title.isValid = true := by
  cases kind with
  | op o => cases o <;> decide +kernel
  | _ => cases operation

theorem isValid_loopName {depth : Int} (least : 0 ≤ depth) (most : depth ≤ 4) :
    (loopName (.ofInt depth)).isValid = true := by
  interval_cases depth <;> decide +kernel

theorem outlines?_clean {body : List Node}
    (each : ∀ n ∈ body, ∃ y, n.outline? = some y ∧ y.Clean) :
    ∃ ys, outlines? body = some ys ∧ ∀ y ∈ ys, y.Clean := by
  induction body with
  | nil => exact ⟨[], rfl, fun _ mem => absurd mem List.not_mem_nil⟩
  | cons n body ih =>
    obtain ⟨⟨y, outlined, clean⟩, later⟩ := List.forall_mem_cons.1 each
    obtain ⟨ys, rest, all⟩ := ih later
    refine ⟨y :: ys, ?_, List.forall_mem_cons.2 ⟨clean, all⟩⟩
    rw [outlines?, outlined, rest]
    rfl

theorem outline?_clean {n : Node} (printable : Printable n) (legible : n.Legible) :
    ∃ y, n.outline? = some y ∧ y.Clean := by
  induction printable with
  | number value => exact ⟨_, rfl, clean_entry (by decide +kernel) (Yaml.clean_int _)⟩
  | string =>
    have valid := legible _ List.mem_cons_self rfl
    exact ⟨_, rfl, clean_entry (by decide +kernel) (Yaml.clean_quoted valid)⟩
  | op operation =>
    exact ⟨_, rfl, clean_entry (by decide +kernel) (Yaml.clean_text (isValid_title operation))⟩
  | call named | set named | get named =>
    exact ⟨_, rfl, clean_entry (by decide +kernel) (Yaml.clean_text named.isValid)⟩
  | index least most =>
    exact ⟨_, rfl, clean_entry (by decide +kernel) (Yaml.clean_text (isValid_loopName least most))⟩
  | @define name body named _ inner =>
    have strings : ∀ t ∈ tokensOfAll body, t.kind = .string → t.text.isValid = true :=
      fun t mem => legible t (by simp [tokens, mem])
    obtain ⟨ys, outlined, clean⟩ := outlines?_clean fun n mem =>
      inner n mem (legible_of_mem mem strings)
    have nameKey : (utf8 "name").isValid = true := by decide +kernel
    have bodyKey : (utf8 "body").isValid = true := by decide +kernel
    refine ⟨_, by rw [outline?, outlined]; rfl, clean_entry (by decide +kernel) (Yaml.clean_map ?_)⟩
    refine List.forall_mem_cons.2 ⟨⟨nameKey, Yaml.clean_text named.isValid⟩, ?_⟩
    exact List.forall_mem_singleton.2 ⟨bodyKey, Yaml.clean_seq clean⟩
  | @branch yes no _ _ first second =>
    have strings : ∀ t ∈ tokensOfAll yes ++ tokensOfAll no, t.kind = .string →
        t.text.isValid = true := by
      intro t mem
      refine legible t ?_
      cases no with
      | nil =>
        rw [tokensOfAll, List.append_nil] at mem
        simp [tokens, mem]
      | cons m no =>
        rcases List.mem_append.1 mem with mem | mem
        · simp [tokens, mem]
        · simp [tokens, mem]
    obtain ⟨here, there⟩ := List.forall_mem_append.1 strings
    obtain ⟨ys, outlined, clean⟩ := outlines?_clean fun n mem =>
      first n mem (legible_of_mem mem here)
    obtain ⟨zs, also, others⟩ := outlines?_clean fun n mem =>
      second n mem (legible_of_mem mem there)
    refine ⟨_, by rw [outline?, outlined, also]; rfl, ?_⟩
    exact clean_entry (by decide +kernel) (clean_branches clean others)
  | @loop body _ inner =>
    have strings : ∀ t ∈ tokensOfAll body, t.kind = .string → t.text.isValid = true :=
      fun t mem => legible t (by simp [tokens, mem])
    obtain ⟨ys, outlined, clean⟩ := outlines?_clean fun n mem =>
      inner n mem (legible_of_mem mem strings)
    refine ⟨_, by rw [outline?, outlined]; rfl, ?_⟩
    exact clean_entry (by decide +kernel) (Yaml.clean_seq clean)

/-- A program whose strings are valid is written to its end. -/
theorem block_outline {body : List Node} (printable : ∀ n ∈ body, Printable n)
    (legible : (block body).Legible) :
    ∃ y, (block body).outline? = some y ∧ y.pieces.2 = true := by
  obtain ⟨ys, outlined, clean⟩ := outlines?_clean fun n mem =>
    outline?_clean (printable n mem) (legible_of_mem mem legible)
  exact ⟨.seq ys, by rw [outline?, outlined]; rfl, (Yaml.clean_seq clean).pieces⟩

end Node
end StackLang
