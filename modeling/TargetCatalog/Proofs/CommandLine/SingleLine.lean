import TargetCatalog.Proofs.Arch.Validation
import TargetCatalog.Proofs.CommandLine.Run
import TargetCatalog.Proofs.Machine.VariantName
import TargetCatalog.Proofs.Query.Contents
import TargetCatalog.Proofs.Query.JsonFormat

/-!
# Lines of output

What a run prints is meant to be one line. In JSON it always is. As text it is one line exactly when
no name and no flag in the answer has a line feed in it, and nothing keeps definitions from holding
such names and flags; where they hold none, every answer is printed as one line.
-/

namespace TargetCatalog

open Text

namespace Definitions

/-- No name and no flag has a line feed in it, where the white space around the name of an
architecture does not count. -/
structure NoLineFeed (d : Definitions) : Prop where
  arch_name : ∀ a ∈ d.archs, '\n' ∉ (trim a.name).toList
  arch_flags : ∀ a ∈ d.archs, ∀ entry ∈ a.flags.entries, ∀ flag ∈ entry.2, '\n' ∉ flag.toList
  machine_name : ∀ m ∈ d.machines, '\n' ∉ m.name.toList

variable {d : Definitions} {r : Registry}

theorem members_declared_of_toRegistry (h : d.toRegistry = .ok r) :
    ∀ m ∈ d.machines, ∀ entry ∈ m.archs.entries, ∀ piece ∈ slotPieces entry,
      piece ≠ "" → ∃ a ∈ d.archs, trim a.name = piece := by
  obtain ⟨middle, hArchs, last, hMachines, -⟩ := (toRegistry_eq_ok_iff d r).mp h
  exact ((exists_runAll_machines_iff d hArchs).mp ⟨last, hMachines⟩).1

namespace NoLineFeed

theorem arch_of_validate (h : d.NoLineFeed) {declaration : ArchDef} {a : Architecture}
    (hDeclared : declaration ∈ d.archs) (hValid : declaration.validate = .ok a) :
    '\n' ∉ a.name.toList := by
  obtain ⟨-, -, table, -, rfl⟩ := (ArchDef.validate_eq_ok_iff declaration a).mp hValid
  exact h.arch_name declaration hDeclared

theorem flag_of_validate (h : d.NoLineFeed) {declaration : ArchDef} {a : Architecture}
    (hDeclared : declaration ∈ d.archs) (hValid : declaration.validate = .ok a)
    (compiler : CompilerId) : ∀ flag ∈ a.flags compiler, '\n' ∉ flag.toList := by
  intro flag hFlag
  rw [Architecture.flags] at hFlag
  cases hFiled : a.flagTable.find? compiler.text with
  | none =>
    rw [hFiled] at hFlag
    cases hFlag
  | some flags =>
    rw [hFiled] at hFlag
    obtain ⟨key, hKey, -⟩ := (Architecture.find?_of_validate hValid compiler flags).mp hFiled
    have hEntry := (declaration.flags.find?_eq_some_iff key flags).mp hKey
    exact h.arch_flags declaration hDeclared (key, flags) hEntry flag hFlag

/-- The choices in the name of a variant are names of architectures. -/
theorem variant_name (h : d.NoLineFeed) (hBuild : d.toRegistry = .ok r) {v : MachineVariant}
    (hv : v ∈ d.variants) : '\n' ∉ v.name.toList := by
  obtain ⟨m, hm, hVariant⟩ := List.mem_flatMap.mp hv
  rw [expand_eq_map_selectedVariant] at hVariant
  obtain ⟨sel, hSel, rfl⟩ := List.mem_map.mp hVariant
  rw [selectedVariant, selectedName_eq_join, mem_join_iff (by decide)]
  rintro ⟨piece, hPiece, hBreak⟩
  rcases List.mem_cons.mp hPiece with rfl | hPiece
  · exact h.machine_name m hm hBreak
  · obtain ⟨hChoice, hFilled⟩ := List.mem_filter.mp hPiece
    obtain ⟨slot, hSlot, -, hChoice⟩ := mem_slotPieces_of_mem_selectionsOf hSel hChoice
    obtain ⟨a, ha, rfl⟩ := members_declared_of_toRegistry hBuild m hm slot hSlot piece hChoice
      (of_decide_eq_true hFilled)
    exact h.arch_name a ha hBreak

theorem holds (h : d.NoLineFeed) (hBuild : d.toRegistry = .ok r) :
    r.Holds fun s => '\n' ∉ s.toList := by
  have hBuilt := describes_of_toRegistry hBuild
  have hDeclared : ∀ a ∈ r.archs.archs, ∃ declaration ∈ d.archs, declaration.validate = .ok a :=
    fun a ha => (mem_architectures_iff d a).mp (hBuilt.archs ▸ ha)
  refine ⟨?_, ?_, ?_⟩
  · intro a ha
    obtain ⟨declaration, hMem, hValid⟩ := hDeclared a ha
    exact h.arch_of_validate hMem hValid
  · intro a ha
    obtain ⟨declaration, hMem, hValid⟩ := hDeclared a ha
    exact h.flag_of_validate hMem hValid
  · intro m hm
    rw [hBuilt.machines] at hm
    obtain ⟨v, hv, rfl⟩ := List.mem_map.mp hm
    exact h.variant_name hBuild hv

end NoLineFeed

end Definitions

namespace CommandLine

open Definitions

theorem IsAnswer.strings_of_holds {r : Registry} {o : Options} {a : Answer} (h : IsAnswer r o a)
    {condition : String → Prop} (hHolds : r.Holds condition) : ∀ s ∈ a.strings, condition s := by
  cases h with
  | archFlags => exact hHolds.archFlags _
  | machines => exact hHolds.machinesMatching _
  | machineFlags _ _ _ hFlags => exact hHolds.machineFlags hFlags

/-- One line feed, at the end. -/
def IsSingleLine (s : String) : Prop :=
  ∃ line, '\n' ∉ line.toList ∧ s = line ++ "\n"

theorem isSingleLine_append_iff (s : String) : IsSingleLine (s ++ "\n") ↔ '\n' ∉ s.toList := by
  constructor
  · rintro ⟨line, hLine, hEnd⟩
    rwa [(String.append_left_inj "\n").mp hEnd]
  · intro h
    exact ⟨s, h, rfl⟩

theorem newline_mem_render_iff (f : Format) (a : Answer) :
    '\n' ∈ (f.render a).toList ↔ f = .text ∧ ∃ s ∈ a.strings, '\n' ∈ s.toList := by
  cases f with
  | text => simp [Format.render, a.mem_text_iff (c := '\n') (by decide) (by decide) (by decide)]
  | json => simpa [Format.render] using a.unbroken_json.newline_notMem

/-- A query that ends well has printed its answer, and what it has printed is one line unless it is
text and a name or flag in the answer has a line feed in it. So it is one line whenever the
definitions that the query is asked of hold no such name or flag. -/
theorem run_single_line_iff {files : FileAccess Id} {directory : Path} {args : List String}
    {fallback : Option String} {o : Options} (hQuery : readArguments args fallback = .accepted o)
    (hExit : (run files directory args fallback).run.exitCode = 0) :
    let output := (run files directory args fallback).run.output
    ∃ source d r a, Selects files directory o.definitions source ∧ Loads files source (.ok d) ∧
      d.toRegistry = .ok r ∧ IsAnswer r o a ∧ output = o.format.render a ++ "\n" ∧
      (IsSingleLine output ↔ o.format = .json ∨ ∀ s ∈ a.strings, '\n' ∉ s.toList) ∧
      (d.NoLineFeed → IsSingleLine output) := by
  intro output
  have hSource := definitionsPath_eq_iff.mp (Eq.refl (definitionsPath files directory o).run)
  obtain ⟨line, hLine⟩ : ∃ line, (run files directory args fallback).run = .answered line := by
    rw [run_of_accepted hQuery] at hExit ⊢
    split at hExit
    · cases hExit
    · exact ⟨_, rfl⟩
  obtain ⟨d, r, a, hLoad, hBuild, hAnswer, hShows⟩ := (run_eq_answered_iff hQuery hSource).mp hLine
  obtain rfl := render_eq_iff.mpr hShows
  have hOutput : output = o.format.render a ++ "\n" := congrArg Outcome.output hLine
  have hSingle : IsSingleLine output ↔ o.format = .json ∨ ∀ s ∈ a.strings, '\n' ∉ s.toList := by
    rw [hOutput, isSingleLine_append_iff, newline_mem_render_iff]
    cases o.format <;> simp
  refine ⟨_, d, r, a, hSource, hLoad, hBuild, hAnswer, hOutput, hSingle, fun hPlain => ?_⟩
  exact hSingle.mpr (.inr (hAnswer.strings_of_holds (hPlain.holds hBuild)))

/-- The flags of a machine whose name, like all names and flags of its file, has no line feed. -/
theorem run_single_line_iff_of_plain_file :
    let text := "[[arch]]\nname = \"sse\"\nflags = \x7b gnu = [\"-msse\"] \x7d\n\n" ++
      "[[machine]]\nname = \"base\"\narchs = \"sse\"\n"
    let files := (FileTree.addFile {} ["work", "capreg.toml"] text.toUTF8).access ["work"]
    let directory := Path.ofString "/work"
    let args := ["--mode", "machine_flags", "--compiler", "gnu", "--machine", "base"]
    let outcome := (run files directory args none).run
    outcome.exitCode = 0 ∧ IsSingleLine outcome.output := by
  intro text files directory args outcome
  have hQuery : readArguments args none = .accepted
      { mode := .machineFlags, compiler := some "gnu", machine := some "base" } := by decide +kernel
  have hExit : outcome.exitCode = 0 := by decide +kernel
  obtain ⟨source, d, r, a, hSource, hLoad, -, -, -, -, hSingle⟩ := run_single_line_iff hQuery hExit
  have hFound : some (Path.ofString "/work/capreg.toml") = source :=
    definitionsPath_eq_iff.mpr hSource ▸ by decide +kernel
  let plain : Definitions :=
    ⟨[{ name := "sse", flags := .ofList [("gnu", ["-msse"])] }], [⟨"base", .words "sse"⟩]⟩
  have hPlain : plain.NoLineFeed :=
    ⟨by decide +kernel, by decide +kernel, by decide +kernel⟩
  have hLoaded : Loads files source (.ok plain) := hFound ▸ (load_eq_iff _).mp (by decide +kernel)
  have hRead : d = plain := Except.ok.inj (hLoad.unique hLoaded)
  exact ⟨hExit, hSingle (hRead ▸ hPlain)⟩

/-- Nothing keeps a line feed out of a flag, and one that ends in a line feed leaves two of them at
the end of the output. -/
theorem run_of_flag_with_line_feed :
    let text := "[[arch]]\nname = \"sse\"\nflags = \x7b gnu = [\"-msse\\n\"] \x7d\n\n" ++
      "[[machine]]\nname = \"base\"\narchs = \"sse\"\n"
    let files := (FileTree.addFile {} ["work", "capreg.toml"] text.toUTF8).access ["work"]
    let directory := Path.ofString "/work"
    let args := ["--mode", "machine_flags", "--compiler", "gnu", "--machine", "base"]
    let outcome := (run files directory args none).run
    outcome.exitCode = 0 ∧ outcome.output = "-msse\n\n" ∧ ¬ IsSingleLine outcome.output := by
  intro text files directory args outcome
  have hAnswered : outcome = .answered "-msse\n" := by decide +kernel
  have hOutput : outcome.output = "-msse\n" ++ "\n" := congrArg Outcome.output hAnswered
  refine ⟨congrArg Outcome.exitCode hAnswered, hOutput.trans (by decide), ?_⟩
  rw [hOutput, isSingleLine_append_iff]
  decide

end CommandLine

end TargetCatalog
