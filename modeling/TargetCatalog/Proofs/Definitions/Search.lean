import TargetCatalog.Proofs.Definitions.Source

/-!
# The search for a definitions file

A search looks for a file in a directory and in those above it, one after the other, and looks no
further once it has found one. To say where it looks, it is run on files that keep a record of the
paths at which a file was looked for.
-/

namespace TargetCatalog

/-- The answers of `files`, with a record of the paths at which a file was looked for. -/
def FileAccess.recording (files : FileAccess Id) : FileAccess (StateM (List Path)) where
  isPresent p := return (files.isPresent p).run
  isFile p := do
    modify (· ++ [p])
    return (files.isFile p).run
  content p := return (files.content p).run

/-- A directory with the name of a file is none. -/
theorem FileTree.isFile_access_iff (tree : FileTree) (directory : List String) (p : Path) :
    ((tree.access directory).isFile p).run = true ↔
      ∃ content, tree.find? directory p = some (.file content) := by
  simp only [access, Id.run]
  split <;> simp_all

namespace Definitions

/-- Of some paths, what is found and what was tried: nothing is found only after all of them, and
otherwise the first one at which there is a file. -/
inductive FirstFile (files : FileAccess Id) : List Path → Option Path → List Path → Prop
  | found {before after : List Path} {path : Path}
    (hBefore : ∀ p ∈ before, (files.isFile p).run = false)
    (hFile : (files.isFile path).run = true) :
    FirstFile files (before ++ path :: after) (some path) (before ++ [path])
  | missing {paths : List Path} (hNone : ∀ p ∈ paths, (files.isFile p).run = false) :
    FirstFile files paths none paths

namespace FirstFile

variable {files : FileAccess Id} {paths tried : List Path} {result : Option Path} {path : Path}

theorem of_isFile (h : (files.isFile path).run = true) (rest : List Path) :
    FirstFile files (path :: rest) (some path) [path] :=
  @found files [] rest path (fun _ hp => absurd hp List.not_mem_nil) h

theorem cons (hNot : (files.isFile path).run = false) (h : FirstFile files paths result tried) :
    FirstFile files (path :: paths) result (path :: tried) := by
  cases h with
  | @found before after place hBefore hFile =>
    exact @found files (path :: before) after place (List.forall_mem_cons.mpr ⟨hNot, hBefore⟩) hFile
  | missing hNone => exact .missing (List.forall_mem_cons.mpr ⟨hNot, hNone⟩)

theorem eq_none_iff (h : FirstFile files paths result tried) :
    result = none ↔ ∀ p ∈ paths, (files.isFile p).run = false := by
  cases h with
  | found hBefore hFile =>
    refine iff_of_false (Option.some_ne_none _) fun hNone => ?_
    rw [hNone _ (by simp)] at hFile
    cases hFile
  | missing hNone => exact iff_of_true rfl hNone

end FirstFile

theorem run_firstFile_cons (files : FileAccess Id) (path : Path) (rest : List Path) :
    (firstFile files (path :: rest)).run =
      if (files.isFile path).run then some path else (firstFile files rest).run := by
  rw [firstFile, Id.run_bind]
  split <;> rfl

theorem run_firstFile_recording_cons (files : FileAccess Id) (path : Path)
    (rest seen : List Path) :
    (firstFile files.recording (path :: rest)).run seen =
      if (files.isFile path).run then (some path, seen ++ [path])
      else (firstFile files.recording rest).run (seen ++ [path]) := by
  have hLook : (files.recording.isFile path).run seen =
      ((files.isFile path).run, seen ++ [path]) := rfl
  rw [firstFile, StateT.run_bind, hLook]
  cases hFile : (files.isFile path).run with
  | true => rfl
  | false => rfl

theorem exists_run_firstFile (files : FileAccess Id) (paths seen : List Path) :
    ∃ tried, FirstFile files paths (firstFile files paths).run tried ∧
      (firstFile files.recording paths).run seen =
        ((firstFile files paths).run, seen ++ tried) := by
  induction paths generalizing seen with
  | nil => exact ⟨[], .missing (by simp), by rw [List.append_nil]; rfl⟩
  | cons path rest ih =>
    rw [run_firstFile_cons, run_firstFile_recording_cons]
    cases hFile : (files.isFile path).run with
    | true => exact ⟨[path], .of_isFile hFile rest, rfl⟩
    | false =>
      obtain ⟨tried, hFirst, hRecord⟩ := ih (seen ++ [path])
      exact ⟨path :: tried, hFirst.cons hFile, by simp [hRecord]⟩

/-- A search goes up from the directory it starts in, one component at a time, until none is left.
It looks for the file in each of these directories in turn, and gives the first that it finds. -/
theorem search_nearest_first (files : FileAccess Id) (s : String) :
    let start := Path.ofString s
    let places := start.ancestors
    let paths := places.map (·.child fileName)
    let outcome := ((search files.recording start).run []).run
    (start.toString = s ∧ places.head? = some start ∧ places.IsChain Path.IsParent ∧
      places.length = start.components.length + 1) ∧
    (∃ top, places.getLast? = some top ∧ top.components = [] ∧ top.absolute = start.absolute ∧
      (top.toString = (if start.absolute then "/" else "") ∨
        start.absolute = true ∧ top = start)) ∧
    (∀ place ∈ places,
      (place.child fileName).toString = Path.joinedText place.toString "capreg.toml") ∧
    (search files start).run = outcome.1 ∧ FirstFile files paths outcome.1 outcome.2 ∧
    (outcome.1 = none ↔ ∀ path ∈ paths, (files.isFile path).run = false) ∧
    ∀ (tree : FileTree) (directory : List String) (path : Path),
      ((tree.access directory).isFile path).run = true ↔
        ∃ content, tree.find? directory path = some (.file content) := by
  intro start places paths outcome
  obtain ⟨above, hAncestors⟩ := Path.exists_ancestors_eq_cons start
  obtain ⟨top, hTop, hComponents, hAbsolute, hPieces⟩ := Path.exists_top start
  obtain ⟨tried, hFirst, hRecord⟩ := exists_run_firstFile files paths []
  have hOutcome : outcome = ((search files start).run, tried) := hRecord
  rw [hOutcome]
  refine ⟨⟨Path.toString_ofString s, ?_, Path.isChain_ancestors start, start.length_ancestors⟩,
    ⟨top, hTop, hComponents, hAbsolute, ?_⟩, fun place hPlace => ?_, rfl, hFirst,
    hFirst.eq_none_iff, FileTree.isFile_access_iff⟩
  · rw [show places = start :: above from hAncestors]
    rfl
  · exact Path.toString_top hComponents hAbsolute hPieces
  · exact Path.toString_child (Path.separator_notMem_of_mem_ancestors s place hPlace) fileName

/-- The directory `/a/capreg.toml` is passed over. -/
theorem search_nearest_first_of_directory :
    let tree := (FileTree.addFile {} ["capreg.toml"] .empty).addDirectory ["a", "capreg.toml"]
    let files := tree.access []
    let start := Path.ofString "/a//b/./"
    let paths := ["/a//b/./capreg.toml", "/a/capreg.toml", "/capreg.toml"].map Path.ofString
    ((search files.recording start).run []).run =
        (some (Path.ofString "/capreg.toml"), paths) ∧
      start.ancestors.IsChain Path.IsParent ∧ start.ancestors.length = 3 ∧
      FirstFile files (start.ancestors.map (·.child fileName))
        (some (Path.ofString "/capreg.toml")) paths := by
  intro tree files start paths
  have hRun : ((search files.recording start).run []).run =
      (some (Path.ofString "/capreg.toml"), paths) := by
    decide +kernel
  have hComponents : start.components.length = 2 := by decide +kernel
  obtain ⟨⟨-, -, hChain, hLength⟩, -, -, -, hFirst, -⟩ := search_nearest_first files "/a//b/./"
  rw [hRun] at hFirst
  exact ⟨hRun, hChain, by rw [hLength, hComponents], hFirst⟩

end Definitions

end TargetCatalog
