import TargetCatalog.CommandLine.Run
import TargetCatalog.Proofs.CommandLine.Arguments
import TargetCatalog.Proofs.Definitions.Build
import TargetCatalog.Proofs.Definitions.Source
import TargetCatalog.Proofs.Query.MachineFlags

/-!
# Outcomes of queries

A query is answered exactly when its source gives a registry and the registry has an answer; the
answer is then all that is printed. Otherwise nothing is printed, and what goes wrong first is
reported: an error of the source before one of the arguments, and no other source is tried.
-/

namespace TargetCatalog.CommandLine

open Definitions

/-- What the registry answers to the query that the options ask. -/
inductive IsAnswer (r : Registry) (o : Options) : Answer → Prop
  | archFlags {compiler : String} (hMode : o.mode = .archFlags)
      (hCompiler : o.compiler = some compiler) :
      IsAnswer r o (.archFlags (r.archFlags (.ofString compiler)))
  | machines {archs : String} (hMode : o.mode = .machines) (hArchs : o.archs = some archs) :
      IsAnswer r o (.machines (r.machinesMatching (.parse archs)))
  | machineFlags {compiler machine : String} {flags : List String} (hMode : o.mode = .machineFlags)
      (hCompiler : o.compiler = some compiler) (hMachine : o.machine = some machine)
      (hFlags : r.machineFlags (.ofString compiler) machine = .ok flags) :
      IsAnswer r o (.flags flags)

/-- The arguments that the mode requires are there, and so is the machine that is asked for. -/
def Answerable (r : Registry) (o : Options) : Prop :=
  match o.mode with
  | .archFlags => ∃ compiler, o.compiler = some compiler
  | .machines => ∃ archs, o.archs = some archs
  | .machineFlags => (∃ compiler, o.compiler = some compiler) ∧
      ∃ m ∈ r.machines.machines, o.machine = some m.name

/-- The line that an answer has in each format. -/
inductive Shows : Format → Answer → String → Prop
  | text (a : Answer) : Shows .text a a.text
  | json (a : Answer) : Shows .json a a.json

/-- The registry of the source has an answer, and the line shows it in the format asked for. -/
def IsLine (files : FileAccess Id) (source : Option Path) (o : Options) (line : String) : Prop :=
  ∃ d r a, Loads files source (.ok d) ∧ d.toRegistry = .ok r ∧ IsAnswer r o a ∧
    Shows o.format a line

/-- The source can be loaded and built, and the options ask for something its registry answers. -/
def HasAnswer (files : FileAccess Id) (source : Option Path) (o : Options) : Prop :=
  ∃ d r, Loads files source (.ok d) ∧ d.toRegistry = .ok r ∧ Answerable r o

theorem require_eq_ok_iff {option value : String} {mode : Mode} {given : Option String} :
    require option mode given = .ok value ↔ given = some value := by
  cases given <;> simp [require]

theorem answer_eq_ok_iff {r : Registry} {o : Options} {a : Answer} :
    answer r o = .ok a ↔ IsAnswer r o a := by
  constructor
  · intro h
    cases hMode : o.mode with
    | archFlags =>
      simp only [answer, hMode] at h
      obtain ⟨compiler, hCompiler, h⟩ := bind_eq_ok_iff.mp h
      cases h
      exact .archFlags hMode (require_eq_ok_iff.mp hCompiler)
    | machines =>
      simp only [answer, hMode] at h
      obtain ⟨archs, hArchs, h⟩ := bind_eq_ok_iff.mp h
      cases h
      exact .machines hMode (require_eq_ok_iff.mp hArchs)
    | machineFlags =>
      simp only [answer, hMode] at h
      obtain ⟨compiler, hCompiler, h⟩ := bind_eq_ok_iff.mp h
      obtain ⟨machine, hMachine, h⟩ := bind_eq_ok_iff.mp h
      split at h
      · rename_i flags hFlags
        cases h
        exact .machineFlags hMode (require_eq_ok_iff.mp hCompiler) (require_eq_ok_iff.mp hMachine)
          hFlags
      · cases h
  · rintro (⟨hMode, hCompiler⟩ | ⟨hMode, hArchs⟩ | ⟨hMode, hCompiler, hMachine, hFlags⟩)
    · simp [answer, hMode, hCompiler, require]
    · simp [answer, hMode, hArchs, require]
    · simp [answer, hMode, hCompiler, hMachine, hFlags, require]

theorem exists_isAnswer_iff {r : Registry} (h : r.machines.WellFormed) (o : Options) :
    (∃ a, IsAnswer r o a) ↔ Answerable r o := by
  constructor
  · rintro ⟨_, ⟨hMode, hCompiler⟩ | ⟨hMode, hArchs⟩ | ⟨hMode, hCompiler, hMachine, hFlags⟩⟩
    · simp [Answerable, hMode, hCompiler]
    · simp [Answerable, hMode, hArchs]
    · obtain ⟨m, hm, rfl⟩ := (Registry.exists_machineFlags_iff h _ _).mp ⟨_, hFlags⟩
      simp only [Answerable, hMode]
      exact ⟨⟨_, hCompiler⟩, m, hm, hMachine⟩
  · intro hAll
    rw [Answerable] at hAll
    split at hAll
    · rename_i hMode
      obtain ⟨compiler, hCompiler⟩ := hAll
      exact ⟨_, .archFlags hMode hCompiler⟩
    · rename_i hMode
      obtain ⟨archs, hArchs⟩ := hAll
      exact ⟨_, .machines hMode hArchs⟩
    · rename_i hMode
      obtain ⟨⟨compiler, hCompiler⟩, m, hm, hMachine⟩ := hAll
      obtain ⟨flags, hFlags⟩ :=
        (Registry.exists_machineFlags_iff h (.ofString compiler) m.name).mpr ⟨m, hm, rfl⟩
      exact ⟨_, .machineFlags hMode hCompiler hMachine hFlags⟩

theorem render_eq_iff {f : Format} {a : Answer} {line : String} :
    f.render a = line ↔ Shows f a line := by
  constructor
  · rintro rfl
    cases f with
    | text => exact .text a
    | json => exact .json a
  · intro h
    cases h with
    | text => rfl
    | json => rfl

theorem respond_eq_ok_iff {d : Definitions} {o : Options} {line : String} :
    respond d o = .ok line ↔
      ∃ r a, d.toRegistry = .ok r ∧ IsAnswer r o a ∧ Shows o.format a line := by
  rw [respond]
  cases hBuild : d.toRegistry with
  | error e => simp
  | ok r =>
    simp only [bind_eq_ok_iff, pure_eq_ok_iff, answer_eq_ok_iff, render_eq_iff, Except.ok.injEq]
    simp

section Source

variable {files : FileAccess Id} {directory : Path} {o : Options} {source : Option Path}

theorem exists_isLine_iff : (∃ line, IsLine files source o line) ↔ HasAnswer files source o := by
  constructor
  · rintro ⟨_, d, r, a, hLoad, hBuild, hAnswer, -⟩
    have hr := (describes_of_toRegistry hBuild).machines_wellFormed
    exact ⟨d, r, hLoad, hBuild, (exists_isAnswer_iff hr o).mp ⟨a, hAnswer⟩⟩
  · rintro ⟨d, r, hLoad, hBuild, hAnswerable⟩
    have hr := (describes_of_toRegistry hBuild).machines_wellFormed
    obtain ⟨a, hAnswer⟩ := (exists_isAnswer_iff hr o).mpr hAnswerable
    exact ⟨_, d, r, a, hLoad, hBuild, hAnswer, render_eq_iff.mp rfl⟩

theorem IsLine.unique {first second : String} (h : IsLine files source o first)
    (hOther : IsLine files source o second) : first = second := by
  obtain ⟨d, r, a, hLoad, hBuild, hAnswer, hShows⟩ := h
  obtain ⟨d', r', a', hLoad', hBuild', hAnswer', hShows'⟩ := hOther
  obtain rfl : d = d' := Except.ok.inj (hLoad.unique hLoad')
  obtain rfl : r = r' := Except.ok.inj (hBuild.symm.trans hBuild')
  have hSame : answer r o = .ok a' := answer_eq_ok_iff.mpr hAnswer'
  obtain rfl : a = a' := Except.ok.inj ((answer_eq_ok_iff.mpr hAnswer).symm.trans hSame)
  exact (render_eq_iff.mpr hShows).symm.trans (render_eq_iff.mpr hShows')

theorem definitionsPath_eq_iff : (definitionsPath files directory o).run = source ↔
    Selects files directory o.definitions source := by
  rw [definitionsPath]
  cases o.definitions with
  | none => exact search_eq_iff directory source
  | some text =>
    constructor
    · rintro rfl
      exact .named text
    · rintro ⟨⟩
      rfl

theorem definitions_of_builtin (h : Selects files directory o.definitions none) :
    (definitions files directory o).run = .ok .builtin := by
  rw [definitions, Id.run_bind, definitionsPath_eq_iff.mpr h]
  rfl

/-- No other source is tried where the selected file gives an error. -/
theorem definitions_of_file {path : Path} (h : Selects files directory o.definitions (some path)) :
    (definitions files directory o).run = (load files path).run.mapError (.loading path) := by
  rw [definitions, Id.run_bind, definitionsPath_eq_iff.mpr h]
  simp only [Id.run_bind]
  cases (load files path).run <;> rfl

theorem definitions_eq_ok_iff (h : Selects files directory o.definitions source)
    (d : Definitions) :
    (definitions files directory o).run = .ok d ↔ Loads files source (.ok d) := by
  cases source with
  | none =>
    rw [definitions_of_builtin h]
    constructor
    · rintro ⟨⟩
      exact .builtin
    · rintro ⟨⟩
      rfl
  | some path =>
    rw [definitions_of_file h, ← load_eq_iff]
    cases (load files path).run <;> simp [Except.mapError]

theorem definitions_of_error {path : Path} {e : LoadError}
    (h : Selects files directory o.definitions (some path))
    (hLoad : Loads files (some path) (.error e)) :
    (definitions files directory o).run = .error (.loading path e) := by
  rw [definitions_of_file h, (load_eq_iff _).mpr hLoad]
  rfl

variable {args : List String} {fallback : Option String}

/-- A query that is accepted ends in the first failure, or in the line that answers it. -/
theorem run_of_accepted (hQuery : readArguments args fallback = .accepted o) :
    (run files directory args fallback).run =
      match (definitions files directory o).run >>= (respond · o) with
      | .error f => .failed f
      | .ok line => .answered line := by
  rw [run, hQuery]
  simp only [Id.run_bind]
  cases (definitions files directory o).run with
  | error f => rfl
  | ok d =>
    cases hLine : respond d o <;> simp [hLine, bind, Except.bind]

theorem run_eq_answered_iff (hQuery : readArguments args fallback = .accepted o)
    (hSource : Selects files directory o.definitions source) {line : String} :
    (run files directory args fallback).run = .answered line ↔ IsLine files source o line := by
  have hLine : (definitions files directory o).run >>= (respond · o) = .ok line ↔
      IsLine files source o line := by
    simp only [bind_eq_ok_iff, respond_eq_ok_iff, definitions_eq_ok_iff hSource, IsLine,
      exists_and_left]
  rw [run_of_accepted hQuery]
  cases hEnd : (definitions files directory o).run >>= (respond · o) with
  | error f =>
    rw [hEnd] at hLine
    simp [← hLine]
  | ok other =>
    rw [hEnd] at hLine
    simp [← hLine]

theorem run_of_not_hasAnswer (hQuery : readArguments args fallback = .accepted o)
    (hSource : Selects files directory o.definitions source)
    (h : ¬ HasAnswer files source o) :
    (run files directory args fallback).run.exitCode = 1 ∧
      (run files directory args fallback).run.output = "" := by
  have hNo : ∀ line, (run files directory args fallback).run ≠ .answered line := by
    intro line hLine
    exact h (exists_isLine_iff.mp ⟨line, (run_eq_answered_iff hQuery hSource).mp hLine⟩)
  rw [run_of_accepted hQuery] at hNo ⊢
  split
  · exact ⟨rfl, rfl⟩
  · rename_i line hEnd
    rw [hEnd] at hNo
    exact absurd rfl (hNo line)

theorem run_of_load_error {path : Path} {e : LoadError}
    (hQuery : readArguments args fallback = .accepted o)
    (hSource : Selects files directory o.definitions (some path))
    (hLoad : Loads files (some path) (.error e)) :
    (run files directory args fallback).run = .failed (.loading path e) := by
  rw [run_of_accepted hQuery, definitions_of_error hSource hLoad]
  rfl

theorem run_of_build_error {d : Definitions} {e : RegistryError}
    (hQuery : readArguments args fallback = .accepted o)
    (hSource : Selects files directory o.definitions source) (hLoad : Loads files source (.ok d))
    (hBuild : d.toRegistry = .error e) :
    (run files directory args fallback).run = .failed (.building e) := by
  rw [run_of_accepted hQuery, (definitions_eq_ok_iff hSource d).mpr hLoad]
  simp only [bind, Except.bind, respond, hBuild]
  rfl

end Source

/-- A query that is accepted has one source: the file that its arguments or else the environment
name, the nearest one above the directory, or the built-in definitions. It is answered from this
source exactly when that loads, builds and has an answer; the line that shows the answer in the
format asked for is all that is printed, and otherwise nothing is. An error of the source is the one
that is reported, whatever else the query lacks. -/
theorem run_of_query {files : FileAccess Id} {directory : Path} {args : List String}
    {fallback : Option String} {o : Options} (hQuery : readArguments args fallback = .accepted o) :
    let outcome := (run files directory args fallback).run
    o.GivenBy args fallback ∧ ∃ source,
      (∀ other, Selects files directory o.definitions other ↔ other = source) ∧
      ((outcome.exitCode = 0 ∧
          ∃ line, IsLine files source o line ∧ outcome.output = line ++ "\n") ↔
        HasAnswer files source o) ∧
      (¬ HasAnswer files source o → outcome.exitCode = 1 ∧ outcome.output = "") ∧
      (∀ path e, source = some path → Loads files source (.error e) →
        outcome = .failed (.loading path e)) ∧
      ∀ d e, Loads files source (.ok d) → d.toRegistry = .error e →
        outcome = .failed (.building e) := by
  intro outcome
  have hUnique : ∀ other, Selects files directory o.definitions other ↔
      other = (definitionsPath files directory o).run := fun other => by
    rw [← definitionsPath_eq_iff, eq_comm]
  have hSource := (hUnique _).mpr rfl
  refine ⟨givenBy_of_readArguments hQuery, _, hUnique, ⟨?_, ?_⟩,
    run_of_not_hasAnswer hQuery hSource, ?_,
    fun d e hLoad hBuild => run_of_build_error hQuery hSource hLoad hBuild⟩
  · rintro ⟨-, line, hLine, -⟩
    exact exists_isLine_iff.mp ⟨line, hLine⟩
  · intro hAnswer
    obtain ⟨line, hLine⟩ := exists_isLine_iff.mpr hAnswer
    have hAnswered : outcome = .answered line := (run_eq_answered_iff hQuery hSource).mpr hLine
    rw [hAnswered]
    exact ⟨rfl, line, hLine, rfl⟩
  · intro path e hPath hLoad
    rw [hPath] at hSource hLoad
    exact run_of_load_error hQuery hSource hLoad

/-- A file that is named and missing is reported, though the mode lacks its arguments as well. The
file above the directory is found, and its machine printed in both formats. -/
theorem run_of_query_of_missing_and_found :
    let text := "[[arch]]\nname = \"sse\"\n\n[[machine]]\nname = \"m\"\narchs = \"sse\"\n"
    let tree := FileTree.addFile {} ["work", "capreg.toml"] text.toUTF8
    let files := (tree.addDirectory ["work", "src"]).access ["work", "src"]
    let directory := Path.ofString "/work/src"
    let lacking := ["--defs=gone.toml", "--mode", "machine_flags"]
    let missing := Path.ofString "gone.toml"
    let complete := ["--mode=machines", "--archs", "sse"]
    let plain := (run files directory complete none).run
    let json := (run files directory (complete ++ ["--format", "json"]) none).run
    (run files directory lacking (some "../capreg.toml")).run =
        .failed (.loading missing (.notFound missing)) ∧
      (plain.exitCode = 0 ∧ plain.output = "m\n") ∧
      json.exitCode = 0 ∧ json.output = "[\"m\"]\n" := by
  intro text tree files directory lacking missing complete plain json
  have hShown {args : List String} {format : Format} {line : String}
      (hQuery : readArguments args none =
        .accepted { mode := .machines, archs := some "sse", format := format })
      (hShows : Shows format (.machines ["m"]) line) :
      (run files directory args none).run.exitCode = 0 ∧
        (run files directory args none).run.output = line ++ "\n" := by
    obtain ⟨-, source, hSource, hAnswered, -⟩ := @run_of_query files directory _ _ _ hQuery
    have hFound : some (Path.ofString "/work/capreg.toml") = source :=
      (hSource _).mp (definitionsPath_eq_iff.mp (by cases format <;> decide +kernel))
    let d : Definitions := ⟨[.named "sse"], [⟨"m", .words "sse"⟩]⟩
    have hLoad : Loads files source (.ok d) := hFound ▸ (load_eq_iff _).mp (by decide +kernel)
    have hMachines : d.toRegistry.toOption.map (·.machinesMatching (.parse "sse")) =
        some ["m"] := by decide +kernel
    cases hBuild : d.toRegistry with
    | error e =>
      rw [hBuild] at hMachines
      cases hMachines
    | ok r =>
      have hNames : r.machinesMatching (.parse "sse") = ["m"] := by
        rw [hBuild] at hMachines
        exact Option.some.inj hMachines
      obtain ⟨hExit, other, hOther, hOutput⟩ := hAnswered.mpr ⟨d, r, hLoad, hBuild, "sse", rfl⟩
      have hAnswer : IsAnswer r { mode := .machines, archs := some "sse", format := format }
          (.machines ["m"]) := hNames ▸ .machines rfl rfl
      have hLine : IsLine files source _ line := ⟨d, r, _, hLoad, hBuild, hAnswer, hShows⟩
      exact ⟨hExit, hOutput.trans (congrArg (· ++ "\n") (hOther.unique hLine))⟩
  refine ⟨?_, hShown (by decide +kernel) (.text _), hShown (by decide +kernel) (.json _)⟩
  have hQuery : readArguments lacking (some "../capreg.toml") =
      .accepted { mode := .machineFlags, definitions := some "gone.toml" } := by decide +kernel
  obtain ⟨-, source, hSource, -, -, hError, -⟩ := @run_of_query files directory _ _ _ hQuery
  have hMissing : some missing = source := (hSource _).mp (.named "gone.toml")
  have hAbsent : (files.isPresent missing).run = false := by decide +kernel
  exact hError missing _ hMissing.symm (hMissing ▸ .notFound hAbsent)

end TargetCatalog.CommandLine
