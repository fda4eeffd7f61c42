import TargetCatalog.CommandLine.Run
import TargetCatalog.Proofs.Definitions.Record
import TargetCatalog.Proofs.Json.Characters

/-!
# Answers read back from JSON

The JSON text of an answer is one line, and the answer is read back from it, whatever characters its
names and flags hold. A reader knows which query it has asked; answers to one query are written
alike only if they are equal.
-/

namespace TargetCatalog

open CommandLine (Mode)

def ArchFlags.ofDatum? (d : Datum) : Option ArchFlags := do
  let fields ← d.fields? .refused ["arch", "flags"]
  let arch ← decodeField fields "arch" Datum.text? none
  let flags ← decodeField fields "flags" Datum.texts? none
  some { arch := arch, flags := flags }

theorem ArchFlags.ofDatum?_toDatum (record : ArchFlags) :
    ofDatum? record.toDatum = some record := by
  have hArch : fieldValue? [("arch", .text record.arch), ("flags", .ofTexts record.flags)] "arch" =
      some (.text record.arch) := by
    simp
  have hFlags : fieldValue? [("arch", .text record.arch), ("flags", .ofTexts record.flags)]
      "flags" = some (.ofTexts record.flags) := by
    simp
  simp [toDatum, ofDatum?, Datum.fields?, decodeField_of_some hArch, decodeField_of_some hFlags,
    Datum.text?]

namespace Answer

/-- The query that an answer belongs to. -/
def mode : Answer → Mode
  | archFlags _ => .archFlags
  | machines _ => .machines
  | flags _ => .machineFlags

/-- The answer to a query, from a tree of values. -/
def ofDatum? (mode : Mode) (d : Datum) : Option Answer :=
  match mode with
  | .archFlags => (d.items? >>= List.mapM ArchFlags.ofDatum?).map archFlags
  | .machines => d.texts?.map machines
  | .machineFlags => d.texts?.map flags

def ofJson? (mode : Mode) (s : String) : Option Answer :=
  Json.read? s >>= ofDatum? mode

theorem ofDatum?_toDatum (a : Answer) : ofDatum? a.mode a.toDatum = some a := by
  cases a with
  | archFlags records =>
    have hRecords := mapM_map_of_decode _ _ ArchFlags.ofDatum?_toDatum records
    simp [mode, toDatum, ofDatum?, Datum.items?, hRecords]
  | machines names => simp [mode, toDatum, ofDatum?]
  | flags names => simp [mode, toDatum, ofDatum?]

theorem integral_toDatum (a : Answer) : Json.Integral a.toDatum := by
  cases a <;> simp [toDatum, ArchFlags.toDatum]

theorem read?_json (a : Answer) : Json.read? a.json = some a.toDatum :=
  Json.read?_render a.integral_toDatum

theorem ofJson?_json (a : Answer) : ofJson? a.mode a.json = some a := by
  rw [ofJson?, read?_json]
  exact a.ofDatum?_toDatum

theorem unbroken_json (a : Answer) : Json.Unbroken a.json.toList := by
  rw [json, Json.render, String.toList_ofList]
  exact a.integral_toDatum.unbroken_chars

/-- The JSON text of an answer has no character below U+0020 in it, so that it is a single line, and
the answer is read back from it. Answers to one query are written alike only if they are equal, and
those to different queries only if they hold the same values. -/
theorem json_read_back (a b : Answer) :
    (∀ c ∈ a.json.toList, 0x20 ≤ c.toNat) ∧ Json.read? a.json = some a.toDatum ∧
      ofJson? a.mode a.json = some a ∧ (a.json = b.json ↔ a.toDatum = b.toDatum) ∧
      (a.mode = b.mode ∧ a.json = b.json ↔ a = b) := by
  refine ⟨a.unbroken_json, a.read?_json, a.ofJson?_json, ⟨fun h => ?_, fun h => ?_⟩, ?_, ?_⟩
  · apply Option.some.inj
    rw [← a.read?_json, h, b.read?_json]
  · rw [json, json, h]
  · rintro ⟨hMode, hText⟩
    apply Option.some.inj
    rw [← a.ofJson?_json, hMode, hText, b.ofJson?_json]
  · rintro rfl
    exact ⟨rfl, rfl⟩

/-- A flag with a line feed and one that spells the escape for it are told apart. -/
theorem json_read_back_of_escapes :
    let a : Answer := .flags ["-a\n\"", "\\n", "],[\x00\x1f"]
    let b : Answer := .flags ["-a\n\"", "\n", "],[\x00\x1f"]
    a.json = "[\"-a\\n\\\"\",\"\\\\n\",\"],[\\u0000\\u001f\"]" ∧ '\\' ∈ a.json.toList ∧
      0x20 ≤ '\\'.toNat ∧ ofJson? .machineFlags a.json = some a ∧ a.json ≠ b.json := by
  intro a b
  have hText : a.json = "[\"-a\\n\\\"\",\"\\\\n\",\"],[\\u0000\\u001f\"]" := by decide +kernel
  have hMem : '\\' ∈ a.json.toList := by
    rw [hText]
    decide
  obtain ⟨hLine, -, hRead, -, hAlike⟩ := json_read_back a b
  refine ⟨hText, hMem, hLine _ hMem, hRead, fun hSame => ?_⟩
  exact absurd (hAlike.mp ⟨rfl, hSame⟩) (by decide)

end Answer

end TargetCatalog
