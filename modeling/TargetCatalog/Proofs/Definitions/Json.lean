import TargetCatalog.Proofs.Definitions.Spelling
import TargetCatalog.Proofs.Json.ReadBack

/-!
# Reading declarations from JSON

The record of a declaration has no numbers but integers, so it is read back from the JSON text that
is written of it. It is one spelling of the declaration, and a text may hold any other.
-/

namespace TargetCatalog

section Integral

open Json (Integral integral_ofTexts)

theorem integral_optionalField {name : String} {value : Option Datum}
    (h : ∀ v, value = some v → Integral v) : ∀ m ∈ optionalField name value, Integral m.2 := by
  cases value with
  | none => simp [optionalField]
  | some value => simpa [optionalField] using h

theorem integral_of_ite {p : Prop} [Decidable p] {value : Datum} (h : Integral value) :
    ∀ v, (if p then none else some value) = some v → Integral v := by
  intro v hv
  obtain ⟨-, hv⟩ := Option.ite_none_left_eq_some.mp hv
  exact Option.some.inj hv ▸ h

@[simp] theorem FlagTable.integral_toDatum (t : FlagTable) : Integral t.toDatum := by
  rw [toDatum, Json.integral_record_iff, List.forall_mem_map]
  exact fun entry _ => integral_ofTexts entry.2

@[simp] theorem Check.integral_toDatum (c : Check) : Integral c.toDatum := by
  simp [toDatum]

@[simp] theorem ArchDef.integral_toDatum (x : ArchDef) : Integral x.toDatum := by
  have hText (value : Option String) : ∀ v, value.map Datum.text = some v → Integral v := by
    intro v hv
    obtain ⟨text, -, rfl⟩ := Option.map_eq_some_iff.mp hv
    exact .text text
  refine .record ?_
  simp only [fields, List.forall_mem_append, List.forall_mem_singleton]
  refine ⟨⟨⟨⟨⟨.text x.name, ?_⟩, ?_⟩, ?_⟩, ?_⟩, ?_⟩
  · exact integral_optionalField (hText x.environment)
  · exact integral_optionalField (hText x.header)
  · exact integral_optionalField (integral_of_ite (.int _))
  · exact integral_optionalField (integral_of_ite (by simp))
  · exact integral_optionalField (integral_of_ite x.flags.integral_toDatum)

@[simp] theorem MachineDef.integral_toDatum (x : MachineDef) : Integral x.toDatum := by
  cases hMembers : x.archs with
  | list entries => simp [toDatum, hMembers, MemberList.toDatum]
  | words text => simp [toDatum, hMembers, MemberList.toDatum]

theorem Definitions.integral_toDatum (x : Definitions) : Integral x.toDatum := by
  simp [toDatum]

end Integral

theorem read_spellings {α : Type} {ofDatum? : Surplus → Datum → Option α}
    {Spelling : Datum → Prop} {x : α} {written : Datum} (hWritten : Spelling written)
    (hIntegral : Json.Integral written)
    (hRead : ∀ d, Spelling d → ofDatum? .refused d = some x) :
    Spelling written ∧ (Json.read? (Json.render written)).bind (ofDatum? .refused) = some x ∧
      ∀ text d, Json.read? text = some d → Spelling d →
        (Json.read? text).bind (ofDatum? .refused) = some x := by
  refine ⟨hWritten, ?_, fun text d hText h => ?_⟩
  · rw [Json.read?_render hIntegral]
    exact hRead written hWritten
  · rw [hText]
    exact hRead d h

/-- Declarations that are written as JSON are read back. What is written is only one of their
spellings, and they are read from every JSON text of any other spelling as well. -/
theorem read_in_every_spelling :
    (∀ x : ArchDef, x.Spelling x.toDatum ∧
      (Json.read? (Json.render x.toDatum)).bind (ArchDef.ofDatum? .refused) = some x ∧
      ∀ text d, Json.read? text = some d → x.Spelling d →
        (Json.read? text).bind (ArchDef.ofDatum? .refused) = some x) ∧
    (∀ x : MachineDef, x.Spelling x.toDatum ∧
      (Json.read? (Json.render x.toDatum)).bind (MachineDef.ofDatum? .refused) = some x ∧
      ∀ text d, Json.read? text = some d → x.Spelling d →
        (Json.read? text).bind (MachineDef.ofDatum? .refused) = some x) ∧
    ∀ x : Definitions, x.Spelling x.toDatum ∧
      (Json.read? (Json.render x.toDatum)).bind (Definitions.ofDatum? .refused) = some x ∧
      ∀ text d, Json.read? text = some d → x.Spelling d →
        (Json.read? text).bind (Definitions.ofDatum? .refused) = some x := by
  refine ⟨fun x => ?_, fun x => ?_, fun x => ?_⟩
  · exact read_spellings x.spelling_toDatum x.integral_toDatum fun _ h => h.ofDatum?_eq .refused
  · exact read_spellings x.spelling_toDatum x.integral_toDatum fun _ h => h.ofDatum?_eq .refused
  · exact read_spellings x.spelling_toDatum x.integral_toDatum fun _ h => h.ofDatum?_eq .refused

/-- Records in reverse order, with defaults and other members in them, and records as lists. -/
theorem read_in_every_spelling_of_reversed :
    let avx : ArchDef := {
      name := "avx"
      environment := some "x86"
      checks := [⟨"cpuid", []⟩]
      flags := .ofList [("gcc", ["-mavx"]), ("icc", [])]
    }
    let x : Definitions := ⟨[avx, .named "sse"], [⟨"m", .words "sse avx|"⟩]⟩
    let reversed : Datum := .record [
      ("flags", .record [("icc", .list []), ("gcc", .list [.text "-mavx"])]),
      ("check", .list [.record [("name", .text "cpuid")]]),
      ("alignment", .int 1),
      ("include", .null),
      ("environment", .text "x86"),
      ("name", .text "avx")]
    let values : Datum := .list [.text "sse", .null, .null, .int 1, .list [], .record []]
    let d : Datum := .record [
      ("note", .bool true),
      ("machine", .list [.list [.text "m", .text "sse avx|"]]),
      ("arch", .list [reversed, values])]
    Json.read? (Json.render d) = some d ∧ x.Spelling d ∧
      (Json.read? (Json.render d)).bind (Definitions.ofDatum? .refused) = some x := by
  intro avx x reversed values d
  have hText : Json.read? (Json.render d) = some d :=
    Json.read?_render (by simp [d, reversed, values])
  have hCheck : Check.Spelling ⟨"cpuid", []⟩ (.record [("name", .text "cpuid")]) :=
    (FieldMembers.spelled rfl (.omitted rfl .nil)).recordSpelling
  have hFlags : avx.flags.Spelling (.record [("icc", .list []), ("gcc", .list [.text "-mavx"])]) :=
    .record (show List.Perm [("icc", []), ("gcc", ["-mavx"])] avx.flags.entries by decide +kernel)
  have hAvx : avx.Spelling reversed :=
    .members (.spelled rfl <| .spelled rfl <| .spelled rfl <| .spelled rfl <|
        .spelled (.list (.cons hCheck .nil)) <| .spelled hFlags .nil)
      (fun _ hm => absurd hm List.not_mem_nil) (List.reverse_perm _).symm
  have hSse : ArchDef.Spelling (.named "sse") values :=
    .values <| .cons rfl <| .cons rfl <| .cons rfl <| .cons rfl <| .cons (.list .nil) <|
      .cons (FlagTable.spelling_toDatum .empty) .nil
  have hMachine : MachineDef.Spelling ⟨"m", .words "sse avx|"⟩
      (.list [.text "m", .text "sse avx|"]) :=
    .values (.cons rfl (.cons rfl .nil))
  have hSpelling : x.Spelling d :=
    .members (.spelled (.list (.cons hAvx (.cons hSse .nil))) <|
        .spelled (.list (.cons hMachine .nil)) .nil)
      (show ∀ m ∈ [("note", Datum.bool true)], m.1 ∉ ["arch", "machine"] by simp)
      (List.reverse_perm _).symm
  obtain ⟨-, -, hDefinitions⟩ := read_in_every_spelling
  obtain ⟨-, -, hRead⟩ := hDefinitions x
  exact ⟨hText, hSpelling, hRead (Json.render d) d hText hSpelling⟩

end TargetCatalog
