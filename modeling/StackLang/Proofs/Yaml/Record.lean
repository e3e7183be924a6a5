import StackLang.Proofs.Text.Numeral
import StackLang.Yaml.Document

/-! A document as it is handed over: records that have a kind, a tag, a style, a text and a content.
All that a document is can be told from its record. -/
namespace StackLang.Yaml

inductive Record.Kind where
  | scalar | seq | map
  deriving DecidableEq, Repr

/-- What is handed over for a value. Only scalars have a text, and only collections a content; in
that of a mapping keys and values take turns. -/
structure Record where
  kind : Record.Kind
  tag : Tag
  isQuoted : Bool := false
  value : Text := []
  content : List Record := []

mutual

def record : Yaml → Record
  | int value => { kind := .scalar, tag := .int, value := Text.decimal value }
  | text value => { kind := .scalar, tag := .str, value }
  | quoted value => { kind := .scalar, tag := .str, isQuoted := true, value }
  | seq items => { kind := .seq, tag := .seq, content := itemRecords items }
  | map entries => { kind := .map, tag := .map, content := entryRecords entries }

def itemRecords : List Yaml → List Record
  | [] => []
  | item :: items => item.record :: itemRecords items

def entryRecords : List (Text × Yaml) → List Record
  | [] => []
  | (key, value) :: entries =>
    { kind := .scalar, tag := .str, value := key } :: value.record :: entryRecords entries

end

mutual

/-- Documents with the same record are the same. -/
theorem record_inj : ∀ {y z : Yaml}, y.record = z.record → y = z
  | .int n, z, same => by
    cases z with
    | int m =>
      simp only [record, Record.mk.injEq] at same
      rw [Text.decimal_inj same.2.2.2.1]
    | _ => simp [record] at same
  | .text t, z, same => by
    cases z with
    | text u =>
      simp only [record, Record.mk.injEq] at same
      rw [same.2.2.2.1]
    | _ => simp [record] at same
  | .quoted t, z, same => by
    cases z with
    | quoted u =>
      simp only [record, Record.mk.injEq] at same
      rw [same.2.2.2.1]
    | _ => simp [record] at same
  | .seq items, z, same => by
    cases z with
    | seq others =>
      simp only [record, Record.mk.injEq] at same
      rw [itemRecords_inj same.2.2.2.2]
    | _ => simp [record] at same
  | .map entries, z, same => by
    cases z with
    | map others =>
      simp only [record, Record.mk.injEq] at same
      rw [entryRecords_inj same.2.2.2.2]
    | _ => simp [record] at same

theorem itemRecords_inj : ∀ {ys zs : List Yaml}, itemRecords ys = itemRecords zs → ys = zs
  | [], [], _ => rfl
  | [], _ :: _, same => by cases same
  | _ :: _, [], same => by cases same
  | y :: ys, z :: zs, same => by
    obtain ⟨here, later⟩ := List.cons.inj same
    rw [record_inj here, itemRecords_inj later]

theorem entryRecords_inj : ∀ {es fs : List (Text × Yaml)},
    entryRecords es = entryRecords fs → es = fs
  | [], [], _ => rfl
  | [], _ :: _, same => by cases same
  | _ :: _, [], same => by cases same
  | (k, y) :: es, (l, z) :: fs, same => by
    obtain ⟨key, behind⟩ := List.cons.inj same
    obtain ⟨value, later⟩ := List.cons.inj behind
    have keys : k = l := congrArg Record.value key
    rw [keys, record_inj value, entryRecords_inj later]

end

end StackLang.Yaml
