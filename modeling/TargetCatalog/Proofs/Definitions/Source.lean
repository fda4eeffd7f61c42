import TargetCatalog.Definitions.Builtin
import TargetCatalog.Definitions.File
import TargetCatalog.Proofs.Files.Ancestors

/-!
# Where definitions come from

A search finds the nearest file above a path. A file that is named is not searched for, and the
built-in definitions count only where nothing is named and nothing is found. What comes of the
chosen source depends on it alone.
-/

namespace TargetCatalog

namespace Definitions

/-- The file that definitions are taken from, or none for those that are built in. Of the places
above a directory, those that come before another have more components, and are nearer
(`Path.map_components_ancestors`). -/
inductive Selects (files : FileAccess Id) (directory : Path) : Option String → Option Path → Prop
  | named (text : String) : Selects files directory (some text) (some (.ofString text))
  | found {before after : List Path} {place : Path}
      (hPlace : directory.ancestors = before ++ place :: after)
      (hNearest : ∀ nearer ∈ before, (files.isFile (nearer.child fileName)).run = false)
      (hFile : (files.isFile (place.child fileName)).run = true) :
      Selects files directory none (some (place.child fileName))
  | builtin
      (hNone : ∀ place ∈ directory.ancestors, (files.isFile (place.child fileName)).run = false) :
      Selects files directory none none

/-- What comes of the definitions in a file, or of those that are built in. -/
inductive Loads (files : FileAccess Id) : Option Path → Except LoadError Definitions → Prop
  | builtin : Loads files none (.ok .builtin)
  | notFound {path : Path} (hPresent : (files.isPresent path).run = false) :
      Loads files (some path) (.error (.notFound path))
  | unreadable {path : Path} (hPresent : (files.isPresent path).run = true)
      (hContent : (files.content path).run.bind String.fromUTF8? = none) :
      Loads files (some path) (.error .unreadable)
  | malformed {path : Path} {text : String} (hPresent : (files.isPresent path).run = true)
      (hContent : (files.content path).run.bind String.fromUTF8? = some text)
      (hText : ofToml? text = none) :
      Loads files (some path) (.error .malformed)
  | loaded {path : Path} {text : String} {d : Definitions}
      (hPresent : (files.isPresent path).run = true)
      (hContent : (files.content path).run.bind String.fromUTF8? = some text)
      (hText : ofToml? text = some d) :
      Loads files (some path) (.ok d)

variable {files : FileAccess Id} {path : Path}

theorem firstFile_eq_find? (paths : List Path) :
    (firstFile files paths).run = paths.find? fun path => (files.isFile path).run := by
  induction paths with
  | nil => rfl
  | cons path rest ih =>
    rw [List.find?_cons]
    cases hFile : (files.isFile path).run with
    | false => simp_all [firstFile]
    | true => simp_all [firstFile]

theorem search_eq_iff (directory : Path) (source : Option Path) :
    (search files directory).run = source ↔ Selects files directory none source := by
  have hSearch : (search files directory).run =
      (directory.ancestors.find? fun place => (files.isFile (place.child fileName)).run).map
        (·.child fileName) := by
    rw [search, firstFile_eq_find?, candidates, List.find?_map]
    rfl
  rw [hSearch]
  constructor
  · rintro rfl
    cases hFind : directory.ancestors.find? fun place =>
        (files.isFile (place.child fileName)).run with
    | none =>
      refine .builtin fun place hPlace => ?_
      simpa using List.find?_eq_none.mp hFind place hPlace
    | some place =>
      obtain ⟨hFile, before, after, hPlace, hNearest⟩ := List.find?_eq_some_iff_append.mp hFind
      exact .found hPlace (by simpa using hNearest) hFile
  · rintro (_ | ⟨hPlace, hNearest, hFile⟩ | hNone)
    · refine Option.map_eq_some_iff.mpr ⟨_, List.find?_eq_some_iff_append.mpr ⟨hFile, _, _, hPlace,
        ?_⟩, rfl⟩
      simpa using hNearest
    · rw [List.find?_eq_none.mpr (by simpa using hNone)]
      rfl

theorem load_of_absent (h : (files.isPresent path).run = false) :
    (load files path).run = .error (.notFound path) := by
  simp_all [load]

theorem load_of_present (h : (files.isPresent path).run = true) :
    (load files path).run = ofContent (files.content path).run := by
  simp_all [load]

theorem load_eq_iff (result : Except LoadError Definitions) :
    (load files path).run = result ↔ Loads files (some path) result := by
  constructor
  · rintro rfl
    cases hPresent : (files.isPresent path).run with
    | false =>
      rw [load_of_absent hPresent]
      exact .notFound hPresent
    | true =>
      rw [load_of_present hPresent, ofContent]
      split
      · rename_i hContent
        exact .unreadable hPresent hContent
      · rename_i text hContent
        split
        · rename_i hText
          exact .malformed hPresent hContent hText
        · rename_i d hText
          exact .loaded hPresent hContent hText
  · rintro (_ | hAbsent | ⟨hPresent, hContent⟩ | ⟨hPresent, hContent, hText⟩ |
      ⟨hPresent, hContent, hText⟩)
    · exact load_of_absent hAbsent
    all_goals rw [load_of_present hPresent, ofContent, hContent]
    all_goals simp [hText]

theorem Loads.unique {source : Option Path} {first second : Except LoadError Definitions}
    (h : Loads files source first) (hOther : Loads files source second) : first = second := by
  cases source with
  | none =>
    cases h
    cases hOther
    rfl
  | some path => exact ((load_eq_iff first).mpr h).symm.trans ((load_eq_iff second).mpr hOther)

end Definitions

end TargetCatalog
