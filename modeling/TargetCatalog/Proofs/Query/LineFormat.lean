import TargetCatalog.Proofs.Query.MachineFlags
import TargetCatalog.Proofs.Text.Separator
import TargetCatalog.Query

/-!
# Answers read back from their lines

A build script cuts the line of an answer at the separators again. It gets back what was answered
exactly when no separator occurs in a name or a flag. A list of one empty string is the only other
one that is lost: its line is that of the empty list. Records are not subject to this, since the
architectures of a registry have names.
-/

namespace TargetCatalog

open Text

/-- The record that a piece of a line stands for: an architecture, and its flags behind it. -/
def ArchFlags.ofText (s : String) : ArchFlags where
  arch := (split ',' s).headD ""
  flags := (split ',' s).tail

def readRecords (s : String) : List ArchFlags :=
  (readList ';' s).map .ofText

namespace ArchFlags

theorem fields_ofText (s : String) : (ofText s).fields = split ',' s := by
  obtain ⟨arch, flags, hFields⟩ := List.exists_cons_of_ne_nil (l := split ',' s)
    (by simp [split, List.splitOn_ne_nil])
  rw [fields, ofText, hFields]
  rfl

theorem fields_inj {a b : ArchFlags} (h : a.fields = b.fields) : a = b := by
  obtain ⟨hArch, hFlags⟩ := List.cons.inj h
  cases a
  cases b
  rw [ArchFlags.mk.injEq]
  exact ⟨hArch, hFlags⟩

theorem text_eq_join (record : ArchFlags) : record.text = join (.singleton ',') record.fields :=
  rfl

theorem ofText_text_eq_iff (record : ArchFlags) :
    ofText record.text = record ↔ ∀ field ∈ record.fields, ',' ∉ field.toList := by
  have hSome : record.fields ≠ [] := List.cons_ne_nil record.arch record.flags
  rw [text_eq_join, ← split_join_eq_iff hSome, ← fields_ofText]
  constructor
  · intro h
    exact congrArg fields h
  · intro h
    exact fields_inj h

theorem mem_text_iff (record : ArchFlags) {c : Char} (h : c ≠ ',') :
    c ∈ record.text.toList ↔ ∃ field ∈ record.fields, c ∈ field.toList :=
  mem_join_iff (by simpa [fieldSeparator] using h) record.fields

end ArchFlags

/-- The fields of a record that is read lie in a piece of the line. -/
theorem free_of_mem_readRecords {s : String} {record : ArchFlags} (h : record ∈ readRecords s)
    {field : String} (hField : field ∈ record.fields) :
    ';' ∉ field.toList ∧ ',' ∉ field.toList := by
  obtain ⟨piece, hPiece, rfl⟩ := List.mem_map.mp h
  rw [ArchFlags.fields_ofText] at hField
  refine ⟨fun hSep => ?_, not_mem_of_mem_split hField⟩
  have hWhole : ';' ∈ (join (.singleton ',') (split ',' piece)).toList :=
    (mem_join_iff (by decide) _).mpr ⟨field, hField, hSep⟩
  rw [join_split] at hWhole
  exact not_mem_of_mem_readList hPiece hWhole

theorem readRecords_text {records : List ArchFlags} (hNames : ∀ record ∈ records, record.arch ≠ "")
    (hFree : ∀ record ∈ records, ∀ field ∈ record.fields,
      ';' ∉ field.toList ∧ ',' ∉ field.toList) :
    readRecords (Answer.archFlags records).text = records := by
  have hPieces : ∀ piece ∈ records.map ArchFlags.text, ';' ∉ piece.toList := by
    intro piece hPiece hSep
    obtain ⟨record, hRecord, rfl⟩ := List.mem_map.mp hPiece
    obtain ⟨field, hField, hMem⟩ := (record.mem_text_iff (by decide)).mp hSep
    exact (hFree record hRecord field hField).1 hMem
  have hSome : records.map ArchFlags.text ≠ [""] := by
    intro hEmpty
    obtain ⟨record, rfl, hText⟩ := List.map_eq_singleton_iff.mp hEmpty
    rw [ArchFlags.text_eq_join, join_eq_empty_iff] at hText
    obtain hFields | hFields := hText
    · cases hFields
    · exact hNames record List.mem_cons_self (List.cons.inj hFields).1
  have hLine : readList ';' (Answer.archFlags records).text = records.map ArchFlags.text :=
    (readList_join_eq_iff ';' _).mpr ⟨hPieces, hSome⟩
  rw [readRecords, hLine, List.map_map]
  refine (List.map_congr_left fun record hRecord => ?_).trans (List.map_id records)
  exact record.ofText_text_eq_iff.mpr fun field hField => (hFree record hRecord field hField).2

theorem Registry.arch_ne_empty_of_mem_archFlags {r : Registry} (h : r.archs.WellFormed)
    {compiler : CompilerId} {record : ArchFlags} (hRecord : record ∈ r.archFlags compiler) :
    record.arch ≠ "" := by
  obtain ⟨a, ha, -, rfl⟩ := (mem_archFlags_iff r compiler record).mp hRecord
  exact (h.inOrder a ha).name_ne_empty

/-- The line of an answer is read back as what was answered exactly when no separator occurs in the
data, except that one empty string alone cannot be told from nothing. -/
theorem Answer.text_read_back_iff :
    (∀ records : List ArchFlags, (∀ record ∈ records, record.arch ≠ "") →
      (readRecords (archFlags records).text = records ↔
        ∀ record ∈ records, ∀ field ∈ record.arch :: record.flags,
          ';' ∉ field.toList ∧ ',' ∉ field.toList)) ∧
    (∀ names : List String, readList ';' (machines names).text = names ↔
      (∀ name ∈ names, ';' ∉ name.toList) ∧ names ≠ [""]) ∧
    (∀ names : List String, readList ' ' (flags names).text = names ↔
      (∀ flag ∈ names, ' ' ∉ flag.toList) ∧ names ≠ [""]) ∧
    ∀ (steps : List BuildStep) (compiler : CompilerId),
      ∀ record ∈ (RegistryBuilder.empty.run steps).2.finish.archFlags compiler,
        record.arch ≠ "" := by
  refine ⟨?_, readList_join_eq_iff ';', readList_join_eq_iff ' ', ?_⟩
  · intro records hNames
    constructor
    · intro h record hRecord field hField
      rw [← h] at hRecord
      exact free_of_mem_readRecords hRecord hField
    · intro hFree
      exact readRecords_text hNames hFree
  · intro steps compiler record hRecord
    have hArchs := (RegistryBuilder.consistent_empty.run steps).wellFormed.archs
    exact Registry.arch_ne_empty_of_mem_archFlags hArchs hRecord

theorem Answer.text_read_back_of_empty_flag :
    let plain : List ArchFlags := [⟨"sse", ["-msse", ""]⟩, ⟨"generic", []⟩]
    let packed : List ArchFlags := [⟨"sse", ["-Wa,-msse"]⟩]
    (∀ record ∈ plain, record.arch ≠ "") ∧ (archFlags plain).text = "sse,-msse,;generic" ∧
      readRecords (archFlags plain).text = plain ∧
      readRecords (archFlags packed).text ≠ packed := by
  intro plain packed
  have hPlain : ∀ record ∈ plain, record.arch ≠ "" := by decide
  have hPacked : ∀ record ∈ packed, record.arch ≠ "" := by decide
  obtain ⟨hRecords, -⟩ := text_read_back_iff
  refine ⟨hPlain, by decide, (hRecords plain hPlain).mpr (by decide +kernel), fun h => ?_⟩
  exact absurd ((hRecords packed hPacked).mp h) (by decide +kernel)

end TargetCatalog
