import TargetCatalog.Definitions.File
import TargetCatalog.Proofs.Definitions.Spelling
import TargetCatalog.Proofs.Toml.Table

/-!
# Reading written definitions

Definitions written as TOML are read back as they were, whatever text they hold. The sections of an
architecture add up to its record: its own settings, the list of its checks and the table of its
flags; and the sections of all architectures and machines add up to the record of the definitions.
-/

namespace TargetCatalog

open Toml

namespace ArchDef

/-- The sections below the header of an architecture, as its own table has them. -/
def innerSections (d : ArchDef) : List Section :=
  d.checks.map (fun c => ⟨true, [], "check", c.settings.map assignmentOf⟩) ++
    if d.flags.isEmpty then [] else [⟨false, [], "flags", d.flagSettings.map assignmentOf⟩]

/-- The table that the sections of an architecture add up to. -/
def table (d : ArchDef) : Entries :=
  Entries.listing "check" (d.checks.map fun c => c.settings.map entryOf) (d.settings.map entryOf) ++
    if d.flags.isEmpty then [] else [("flags", .table .header (d.flagSettings.map entryOf))]

theorem map_toSection_blocks (d : ArchDef) :
    d.blocks.map Block.toSection =
      ⟨true, [], "arch", d.settings.map assignmentOf⟩ ::
        d.innerSections.map (Section.below "arch") := by
  by_cases hFlags : d.flags.isEmpty
  · simp [blocks, innerSections, Block.toSection, Section.below, hFlags]
  · simp [blocks, innerSections, Block.toSection, Section.below, hFlags]

theorem keys_optionalField_sublist (name : String) (value : Option Setting) :
    ((optionalField name value).map Prod.fst).Sublist [name] := by
  cases value with
  | none => exact List.nil_sublist [name]
  | some value => exact List.Sublist.refl [name]

theorem keys_settings_sublist (d : ArchDef) :
    (d.settings.map Prod.fst).Sublist ["name", "environment", "include", "alignment"] := by
  simp only [settings, List.map_append]
  exact (((List.Sublist.refl ["name"]).append (keys_optionalField_sublist _ _)).append
    (keys_optionalField_sublist _ _)).append (keys_optionalField_sublist _ _)

theorem assignAll_settings (d : ArchDef) :
    Entries.assignAll (d.settings.map assignmentOf) [] = some (d.settings.map entryOf) :=
  Entries.assignAll_nil_of_nodup (d.keys_settings_sublist.nodup (by decide))

theorem notMem_keys_settings {key : String}
    (hKey : key ∉ ["name", "environment", "include", "alignment"]) (d : ArchDef) :
    key ∉ (d.settings.map entryOf).map Prod.fst := by
  rw [map_fst_map_entryOf]
  exact fun h => hKey (d.keys_settings_sublist.subset h)

theorem foldlM_checks (d : ArchDef) :
    (d.checks.map fun c => ⟨true, [], "check", c.settings.map assignmentOf⟩).foldlM
        Entries.addSection (d.settings.map entryOf) =
      some (Entries.listing "check" (d.checks.map fun c => c.settings.map entryOf)
        (d.settings.map entryOf)) := by
  have hSettings (c : Check) : (c.settings.map Prod.fst).Nodup :=
    (by decide : ["name", "params"].Nodup)
  have hKey : "check" ∉ (d.settings.map entryOf).map Prod.fst :=
    notMem_keys_settings (by decide) d
  exact Entries.foldlM_listing hSettings (fun _ => hKey) []

theorem foldlM_innerSections (d : ArchDef) :
    d.innerSections.foldlM Entries.addSection (d.settings.map entryOf) = some d.table := by
  rw [innerSections, List.foldlM_append, foldlM_checks, Option.bind_eq_bind, Option.bind_some,
    table]
  by_cases hFlags : d.flags.isEmpty
  · simp [hFlags]
  · have hKey : "flags" ∉ (Entries.listing "check" (d.checks.map fun c => c.settings.map entryOf)
        (d.settings.map entryOf)).map Prod.fst :=
      Entries.notMem_keys_listing (by decide) (notMem_keys_settings (by decide) d) _
    have hKeys : (d.flagSettings.map Prod.fst).Nodup := by
      simpa [flagSettings, Function.comp_def] using d.flags.nodup_keys
    have hPut := Entries.putTable_of_notMem hKey (Entries.assignAll_nil_of_nodup hKeys)
    simp [hFlags, Entries.addSection, Entries.descend, hPut]

theorem map_toDatum_optionalField (name : String) (value : Option Setting) :
    (optionalField name value).map (fun line => (line.1, line.2.toDatum)) =
      optionalField name (value.map Setting.toDatum) := by
  cases value with
  | none => rfl
  | some value => rfl

/-- The record of an architecture has what its settings give, and then its checks and flags. -/
theorem fields_eq_map_settings (d : ArchDef) : d.fields =
    d.settings.map (fun line => (line.1, line.2.toDatum)) ++
      optionalField "check"
        (if d.checks = [] then none else some (.list (d.checks.map Check.toDatum))) ++
      optionalField "flags" (if d.flags.isEmpty then none else some d.flags.toDatum) := by
  have hAlignment : (if d.alignment = 1 then none
      else some (Setting.number d.alignment.toNat)).map Setting.toDatum =
        if d.alignment = 1 then none else some (.int d.alignment.toNat) := by
    split <;> rfl
  have hText (value : Option String) :
      (value.map Setting.text).map Setting.toDatum = value.map Datum.text := by
    cases value <;> rfl
  simp only [fields, settings, List.map_append, map_toDatum_optionalField, hAlignment, hText]
  rfl

theorem toDatum_settings_check (c : Check) :
    Entries.toDatum (c.settings.map entryOf) = c.toDatum := by
  rw [Entries.toDatum_map_entryOf]
  rfl

theorem toDatum_flagSettings (d : ArchDef) :
    Entries.toDatum (d.flagSettings.map entryOf) = d.flags.toDatum := by
  rw [Entries.toDatum_map_entryOf, flagSettings, List.map_map]
  rfl

theorem toDatum_table (d : ArchDef) : d.table.toDatum = d.toDatum := by
  have hChecks : (d.checks.map fun c => c.settings.map entryOf).map Entries.toDatum =
      d.checks.map Check.toDatum := by
    simp [toDatum_settings_check]
  have hFlags : entryToField ("flags", .table .header (d.flagSettings.map entryOf)) =
      ("flags", d.flags.toDatum) := by
    rw [← toDatum_flagSettings]
    simp [entryToField, Node.toDatum, Entries.toDatum]
  rw [Entries.toDatum, ArchDef.toDatum, Entries.entriesToFields_eq_map, table, List.map_append,
    Entries.map_entryToField_listing, Entries.map_entryToField_entryOf, hChecks,
    fields_eq_map_settings]
  simp only [optionalField_ite, List.map_eq_nil_iff, apply_ite (List.map entryToField),
    List.map_nil, List.map_singleton, hFlags]

theorem readable_optionalField {name : String} {value : Option Setting}
    (h : ∀ v ∈ value, v.Readable) : ∀ line ∈ optionalField name value, line.2.Readable := by
  cases value with
  | none => simp [optionalField]
  | some value => simpa [optionalField] using h

theorem readable_settings (d : ArchDef) : ∀ line ∈ d.settings, line.2.Readable := by
  have hText (value : Option String) : ∀ v ∈ value.map Setting.text, v.Readable := by
    simp
  have hAlignment : ∀ v ∈ (if d.alignment = 1 then none
      else some (Setting.number d.alignment.toNat)), v.Readable := by
    intro v hv
    split at hv
    · cases hv
    · obtain rfl := Option.some.inj hv
      have hBound := d.alignment.toNat_lt
      have hMax : Int64.maxValue.toInt = 2 ^ 63 - 1 := rfl
      rw [Setting.Readable, hMax]
      omega
  simp only [settings, List.forall_mem_append, List.forall_mem_singleton]
  exact ⟨⟨⟨trivial, readable_optionalField (hText _)⟩, readable_optionalField (hText _)⟩,
    readable_optionalField hAlignment⟩

theorem readable_blocks (d : ArchDef) : ∀ b ∈ d.blocks, b.Readable := by
  have hOuter : ([] : List String).length < nestingLimit - 1 := by decide
  have hInner : ["arch"].length < nestingLimit - 1 := by decide
  have hArch : (⟨true, [], "arch", d.settings⟩ : Block).Readable := ⟨hOuter, d.readable_settings⟩
  have hCheck (c : Check) : (⟨true, ["arch"], "check", c.settings⟩ : Block).Readable :=
    ⟨hInner, by simp [Check.settings]⟩
  have hFlags : (⟨false, ["arch"], "flags", d.flagSettings⟩ : Block).Readable := by
    refine ⟨hInner, fun line hLine => ?_⟩
    obtain ⟨entry, -, rfl⟩ := List.mem_map.mp hLine
    exact Setting.readable_texts entry.2
  intro b hb
  rw [blocks, List.cons_append, List.mem_cons, List.mem_append, List.mem_map] at hb
  obtain rfl | ⟨c, -, rfl⟩ | hb := hb
  · exact hArch
  · exact hCheck c
  · split at hb
    · cases hb
    · obtain rfl := List.mem_singleton.mp hb
      exact hFlags

end ArchDef

theorem MemberList.toDatum_setting (members : MemberList) :
    members.setting.toDatum = members.toDatum := by
  cases members <;> rfl

theorem MachineDef.toDatum_settings (d : MachineDef) :
    Entries.toDatum (d.settings.map entryOf) = d.toDatum := by
  rw [Entries.toDatum_map_entryOf]
  simp only [settings, List.map_cons, List.map_nil, MemberList.toDatum_setting]
  rfl

theorem MachineDef.readable_block (d : MachineDef) : d.block.Readable := by
  have hOuter : ([] : List String).length < nestingLimit - 1 := by decide
  have hMembers : d.archs.setting.Readable := by
    cases d.archs <;> simp [MemberList.setting]
  exact ⟨hOuter, by simp [block, settings, hMembers]⟩

namespace Definitions

variable {parent : Entries}

theorem foldlM_archs {ds : List ArchDef} (hKey : ds ≠ [] → "arch" ∉ parent.map Prod.fst)
    (items : List Entries) :
    ((ds.flatMap ArchDef.blocks).map Block.toSection).foldlM Entries.addSection
        (Entries.listing "arch" items parent) =
      some (Entries.listing "arch" (items ++ ds.map ArchDef.table) parent) := by
  induction ds generalizing items with
  | nil => simp
  | cons d ds ih =>
    have hNew := hKey (List.cons_ne_nil d ds)
    have hPush : Entries.addSection (Entries.listing "arch" items parent)
        ⟨true, [], "arch", d.settings.map assignmentOf⟩ =
          some (Entries.listing "arch" (items ++ [d.settings.map entryOf]) parent) :=
      Entries.pushTable_listing hNew d.assignAll_settings items
    rw [List.flatMap_cons, List.map_append, List.foldlM_append, d.map_toSection_blocks,
      List.foldlM_cons, hPush, Option.bind_eq_bind, Option.bind_some, Entries.foldlM_below hNew,
      d.foldlM_innerSections, Option.map_some, Option.bind_some, ih (fun _ => hNew)]
    simp

theorem foldlM_machines {ds : List MachineDef}
    (hKey : ds ≠ [] → "machine" ∉ parent.map Prod.fst) :
    ((ds.map MachineDef.block).map Block.toSection).foldlM Entries.addSection parent =
      some (Entries.listing "machine" (ds.map fun d => d.settings.map entryOf) parent) := by
  have hSettings (d : MachineDef) : (d.settings.map Prod.fst).Nodup :=
    (by decide : ["name", "archs"].Nodup)
  rw [List.map_map]
  exact Entries.foldlM_listing hSettings hKey []

/-- The tables of written definitions. -/
def tables (d : Definitions) : Entries :=
  Entries.listing "machine" (d.machines.map fun m => m.settings.map entryOf)
    (Entries.listing "arch" (d.archs.map ArchDef.table) (d.settings.map entryOf))

theorem assignAll_settings (d : Definitions) :
    Entries.assignAll (d.settings.map assignmentOf) [] = some (d.settings.map entryOf) := by
  refine Entries.assignAll_nil_of_nodup ?_
  rw [settings]
  split <;> split <;> simp

theorem foldlM_blocks (d : Definitions) :
    (d.blocks.map Block.toSection).foldlM Entries.addSection (d.settings.map entryOf) =
      some d.tables := by
  have hArch : d.archs ≠ [] → "arch" ∉ (d.settings.map entryOf).map Prod.fst := by
    intro h
    rw [map_fst_map_entryOf, settings, if_neg h]
    split <;> simp
  have hMachine : d.machines ≠ [] → "machine" ∉ (Entries.listing "arch"
      (d.archs.map ArchDef.table) (d.settings.map entryOf)).map Prod.fst := by
    intro h
    refine Entries.notMem_keys_listing (by decide) ?_ _
    rw [map_fst_map_entryOf, settings, if_neg h]
    split <;> simp
  have hArchs := foldlM_archs hArch []
  rw [Entries.listing_nil, List.nil_append] at hArchs
  rw [blocks, List.map_append, List.foldlM_append, hArchs, Option.bind_eq_bind, Option.bind_some,
    foldlM_machines hMachine, tables]

theorem fieldValue?_tables (d : Definitions) :
    fieldValue? (entriesToFields d.tables) "arch" =
        some (.list (d.archs.map ArchDef.toDatum)) ∧
      fieldValue? (entriesToFields d.tables) "machine" =
        some (.list (d.machines.map MachineDef.toDatum)) := by
  have hArchs : (d.archs.map ArchDef.table).map Entries.toDatum = d.archs.map ArchDef.toDatum := by
    simp [ArchDef.toDatum_table]
  have hMachines : (d.machines.map fun m => m.settings.map entryOf).map Entries.toDatum =
      d.machines.map MachineDef.toDatum := by
    simp [MachineDef.toDatum_settings]
  rw [tables, Entries.entriesToFields_eq_map, Entries.map_entryToField_listing,
    Entries.map_entryToField_listing, Entries.map_entryToField_entryOf, hArchs, hMachines]
  by_cases hNoArchs : d.archs = []
  · by_cases hNoMachines : d.machines = []
    · simp [settings, hNoArchs, hNoMachines, Setting.toDatum, Datum.ofTexts]
    · simp [settings, hNoArchs, hNoMachines, Setting.toDatum, Datum.ofTexts]
  · by_cases hNoMachines : d.machines = []
    · simp [settings, hNoArchs, hNoMachines, Setting.toDatum, Datum.ofTexts]
    · simp [settings, hNoArchs, hNoMachines]

theorem readable_settings (d : Definitions) : ∀ line ∈ d.settings, line.2.Readable := by
  rw [settings]
  split <;> split <;> simp

theorem readable_blocks (d : Definitions) : ∀ b ∈ d.blocks, b.Readable := by
  intro b hb
  rw [blocks, List.mem_append, List.mem_flatMap, List.mem_map] at hb
  obtain ⟨a, -, hBlock⟩ | ⟨m, -, rfl⟩ := hb
  · exact a.readable_blocks b hBlock
  · exact m.readable_block

/-- Definitions that are written and read back are the same. -/
theorem ofToml?_toToml (d : Definitions) : ofToml? d.toToml = some d := by
  obtain ⟨hArchs, hMachines⟩ := d.fieldValue?_tables
  have hRead : read? d.toToml = some d.tables.toDatum := by
    rw [toToml, read?_render d.readable_settings d.readable_blocks, assignAll_settings]
    simp [foldlM_blocks]
  rw [ofToml?, hRead]
  exact ofDatum?_record .ignored d hArchs hMachines

end Definitions

end TargetCatalog
