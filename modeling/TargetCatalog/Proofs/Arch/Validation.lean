import Mathlib.Data.List.Nodup
import TargetCatalog.Proofs.Arch.Catalogue

/-!
# Validating an architecture

What becomes of a declaration. It is refused for its name, for its alignment, or for the first of
its flag keys, in ascending order, that names the compiler of an earlier one; there is no other
reason. Otherwise its flags are filed under the identifiers of their compilers. That may change the
order of the entries, but none is lost and no two are merged, so the flags of a key are found by
every spelling of its compiler.
-/

namespace TargetCatalog

namespace FlagTable

def keys (t : FlagTable) : List String :=
  t.entries.map Prod.fst

/-- Two keys name the same compiler. -/
def Collides (t : FlagTable) : Prop :=
  ∃ key ∈ t.keys, ∃ other ∈ t.keys,
    key ≠ other ∧ CompilerId.ofString key = CompilerId.ofString other

instance (t : FlagTable) : Decidable t.Collides :=
  inferInstanceAs (Decidable (∃ key ∈ t.keys, ∃ other ∈ t.keys, _ ∧ _))

/-- A smaller key names the same compiler. -/
def Repeats (t : FlagTable) (key : String) : Prop :=
  key ∈ t.keys ∧
    ∃ earlier ∈ t.keys, earlier < key ∧ CompilerId.ofString earlier = CompilerId.ofString key

/-- The smallest key that repeats the compiler of another one. -/
structure FirstRepeat (t : FlagTable) (key : String) : Prop where
  repeats : t.Repeats key
  least : ∀ other, t.Repeats other → ¬ other < key

variable {t : FlagTable} {key : String}

theorem exists_flags_of_mem_keys (h : key ∈ t.keys) : ∃ flags, (key, flags) ∈ t.entries := by
  obtain ⟨⟨_, flags⟩, hEntry, rfl⟩ := List.mem_map.mp h
  exact ⟨flags, hEntry⟩

/-- Keys name distinct compilers when no two of them collide. -/
theorem eq_of_compiler_eq (h : ¬ t.Collides) {other : String} (hKey : key ∈ t.keys)
    (hOther : other ∈ t.keys) (hSame : CompilerId.ofString key = CompilerId.ofString other) :
    key = other := by
  by_contra hNe
  exact h ⟨key, hKey, other, hOther, hNe, hSame⟩

theorem nodup_compilers_iff (t : FlagTable) :
    (t.entries.map fun e => CompilerId.ofString e.1).Nodup ↔ ¬ t.Collides := by
  constructor
  · rintro hNodup ⟨key, hKey, other, hOther, hNe, hSame⟩
    obtain ⟨flags, hEntry⟩ := exists_flags_of_mem_keys hKey
    obtain ⟨others, hEntries⟩ := exists_flags_of_mem_keys hOther
    have hEq := List.inj_on_of_nodup_map hNodup hEntry hEntries hSame
    exact hNe (congrArg Prod.fst hEq)
  · intro hFree
    refine List.pairwise_map.mpr (t.ascending.imp_of_mem fun {a b} ha hb hLt hSame => ?_)
    have hEq := eq_of_compiler_eq hFree (List.mem_map_of_mem ha) (List.mem_map_of_mem hb) hSame
    exact String.lt_irrefl b.1 (hEq ▸ hLt)

section Split

variable {before after : List (String × List String)} {flags : List String}
  (hEntries : t.entries = before ++ (key, flags) :: after)

include hEntries

theorem lt_of_mem_before {e : String × List String} (he : e ∈ before) : e.1 < key := by
  have hAscending := hEntries ▸ t.ascending
  exact (List.pairwise_append.mp hAscending).2.2 e he (key, flags) List.mem_cons_self

theorem exists_mem_before_of_lt {other : String} (hOther : other ∈ t.keys) (hLt : other < key) :
    ∃ e ∈ before, e.1 = other := by
  obtain ⟨e, he, rfl⟩ := List.mem_map.mp hOther
  rw [hEntries] at he
  rcases List.mem_append.mp he with he | he
  · exact ⟨e, he, rfl⟩
  · have hAscending := hEntries ▸ t.ascending
    obtain ⟨hAbove, -⟩ := List.pairwise_cons.mp (List.pairwise_append.mp hAscending).2.1
    rcases List.mem_cons.mp he with rfl | he
    · exact absurd hLt (String.lt_irrefl _)
    · exact absurd hLt (String.lt_asymm (hAbove e he))

/-- A key that names the compiler of an entry before it, where all of these name different ones. -/
theorem firstRepeat_of_split (hNodup : (before.map fun e => CompilerId.ofString e.1).Nodup)
    (hSame : ∃ e ∈ before, CompilerId.ofString e.1 = CompilerId.ofString key) :
    t.FirstRepeat key := by
  have hBefore : ∀ e ∈ before, e.1 ∈ t.keys := by
    intro e he
    exact List.mem_map_of_mem (hEntries ▸ List.mem_append_left _ he)
  have hKey : key ∈ t.keys :=
    List.mem_map_of_mem (f := Prod.fst) (a := (key, flags)) (by simp [hEntries])
  obtain ⟨e, he, hSame⟩ := hSame
  refine ⟨⟨hKey, e.1, hBefore e he, lt_of_mem_before hEntries he, hSame⟩, ?_⟩
  rintro other ⟨hOther, earlier, hEarlier, hLt, hEq⟩ hBelow
  obtain ⟨a, ha, rfl⟩ := exists_mem_before_of_lt hEntries hOther hBelow
  obtain ⟨b, hb, rfl⟩ :=
    exists_mem_before_of_lt hEntries hEarlier (String.lt_trans hLt hBelow)
  have hTwice := List.inj_on_of_nodup_map hNodup hb ha hEq
  exact String.lt_irrefl a.1 (hTwice ▸ hLt)

end Split

end FlagTable

section NormalizeFlags

variable {arch : String} {entries : List (String × List String)} {table : FlagTable}

theorem exists_repeat_of_normalizeFlags {e : RegistryError}
    (h : normalizeFlags arch entries table = .error e) :
    ∃ before entry after filed, entries = before ++ entry :: after ∧
      normalizeFlags arch before table = .ok filed ∧
      filed.contains (CompilerId.ofString entry.1).text = true ∧
      e = .duplicateCompiler arch (CompilerId.ofString entry.1).text := by
  induction entries generalizing table with
  | nil => cases h
  | cons entry rest ih =>
    obtain ⟨key, flags⟩ := entry
    simp only [normalizeFlags] at h
    split at h
    · rename_i hTaken
      cases h
      exact ⟨[], (key, flags), rest, table, rfl, rfl, hTaken, rfl⟩
    · rename_i hFree
      obtain ⟨before, entry, after, filed, hRest, hBefore, hTaken, hError⟩ := ih h
      refine ⟨(key, flags) :: before, entry, after, filed, by rw [hRest]; rfl, ?_, hTaken, hError⟩
      simpa only [normalizeFlags, if_neg hFree] using hBefore

/-- Filing stops at the first key that repeats a compiler, and names that compiler. -/
theorem firstRepeat_of_normalizeFlags {t : FlagTable} {e : RegistryError}
    (h : normalizeFlags arch t.entries .empty = .error e) :
    ∃ key, t.FirstRepeat key ∧ e = .duplicateCompiler arch (CompilerId.ofString key).text := by
  obtain ⟨before, ⟨key, flags⟩, after, filed, hEntries, hBefore, hTaken, hError⟩ :=
    exists_repeat_of_normalizeFlags h
  obtain ⟨hNodup, -⟩ := (normalizeFlags_isOk_iff arch before .empty).mp ⟨filed, hBefore⟩
  obtain ⟨others, hFound⟩ := Option.isSome_iff_exists.mp hTaken
  have hFiled := (FlagTable.find?_eq_some_iff filed _ others).mp hFound
  have hMem := (perm_of_normalizeFlags hBefore).mem_iff.mp hFiled
  obtain ⟨earlier, hEarlier, hSame⟩ := List.mem_map.mp hMem
  obtain ⟨hCompiler, -⟩ := (normalEntry_eq_iff earlier _ others).mp hSame
  exact ⟨key, FlagTable.firstRepeat_of_split hEntries hNodup ⟨earlier, hEarlier, hCompiler⟩, hError⟩

end NormalizeFlags

namespace Architecture

variable {d : ArchDef} {a : Architecture}

theorem perm_of_validate (h : d.validate = .ok a) :
    a.flagTable.entries.Perm (d.flags.entries.map normalEntry) := by
  obtain ⟨-, -, table, hTable, rfl⟩ := (ArchDef.validate_eq_ok_iff d a).mp h
  exact perm_of_normalizeFlags hTable

theorem length_keys_of_validate (h : d.validate = .ok a) :
    a.flagTable.keys.length = d.flags.keys.length := by
  simpa [FlagTable.keys] using (perm_of_validate h).length_eq

theorem find?_of_validate (h : d.validate = .ok a) (compiler : CompilerId) (flags : List String) :
    a.flagTable.find? compiler.text = some flags ↔
      ∃ key, d.flags.find? key = some flags ∧ CompilerId.ofString key = compiler := by
  rw [FlagTable.find?_eq_some_iff, (perm_of_validate h).mem_iff, List.mem_map]
  constructor
  · rintro ⟨⟨key, others⟩, hEntry, hNormal⟩
    obtain ⟨hCompiler, rfl⟩ := (normalEntry_eq_iff _ compiler flags).mp hNormal
    exact ⟨key, (d.flags.find?_eq_some_iff key others).mpr hEntry, hCompiler⟩
  · rintro ⟨key, hFound, hCompiler⟩
    exact ⟨(key, flags), (d.flags.find?_eq_some_iff key flags).mp hFound,
      (normalEntry_eq_iff _ compiler flags).mpr ⟨hCompiler, rfl⟩⟩

/-- The flags of a key are found by every spelling of its compiler. -/
theorem flags_of_key (h : d.validate = .ok a) {key : String} {compiler : CompilerId}
    (hKey : key ∈ d.flags.keys) (hCompiler : CompilerId.ofString key = compiler) :
    d.flags.find? key = some (a.flags compiler) ∧ a.supports compiler = true := by
  obtain ⟨flags, hEntry⟩ := FlagTable.exists_flags_of_mem_keys hKey
  have hFound := (d.flags.find?_eq_some_iff key flags).mpr hEntry
  have hFiled := (find?_of_validate h compiler flags).mpr ⟨key, hFound, hCompiler⟩
  constructor
  · rw [Architecture.flags, hFiled, hFound, Option.getD_some]
  · rw [supports, FlagTable.contains, hFiled, Option.isSome_some, Bool.or_true]

theorem flags_of_no_key (h : d.validate = .ok a) {compiler : CompilerId}
    (hNone : ∀ key ∈ d.flags.keys, CompilerId.ofString key ≠ compiler) :
    a.flags compiler = [] ∧ a.supports compiler = d.flags.isEmpty := by
  have hFiled : a.flagTable.find? compiler.text = none := by
    rw [Option.eq_none_iff_forall_ne_some]
    intro flags hFound
    obtain ⟨key, hKey, hCompiler⟩ := (find?_of_validate h compiler flags).mp hFound
    have hEntry := (d.flags.find?_eq_some_iff key flags).mp hKey
    exact hNone key (List.mem_map_of_mem hEntry) hCompiler
  have hEmpty : a.flagTable.isEmpty = d.flags.isEmpty :=
    (perm_of_validate h).isEmpty_eq.trans List.isEmpty_map
  constructor
  · rw [Architecture.flags, hFiled, Option.getD_none]
  · rw [supports, FlagTable.contains, hFiled, Option.isSome_none, Bool.or_false, hEmpty]

end Architecture

theorem ArchDef.validate_of_collides {d : ArchDef} (hName : Text.trim d.name ≠ "")
    (hAlign : d.alignment ≠ 0) (hCollides : d.flags.Collides) :
    ∃ key, d.flags.FirstRepeat key ∧ d.validate =
      .error (.duplicateCompiler (Text.trim d.name) (CompilerId.ofString key).text) := by
  cases hFlags : normalizeFlags (Text.trim d.name) d.flags.entries .empty with
  | ok table =>
    obtain ⟨hNodup, -⟩ := (normalizeFlags_isOk_iff _ _ _).mp ⟨table, hFlags⟩
    exact absurd hCollides ((FlagTable.nodup_compilers_iff d.flags).mp hNodup)
  | error e =>
    obtain ⟨key, hFirst, rfl⟩ := firstRepeat_of_normalizeFlags hFlags
    refine ⟨key, hFirst, ?_⟩
    simp only [validate, if_neg hName, if_neg hAlign, hFlags]
    rfl

/-- A declaration without a name is refused, then one without an alignment, then one whose flag keys
collide, for the first of them that repeats a compiler. Every other one is accepted as it stands,
under its trimmed name, and answers for each compiler as its keys do. -/
theorem ArchDef.validate_outcome (d : ArchDef) :
    let name := Text.trim d.name
    (name = "" → d.validate = .error .missingArchName) ∧
    (name ≠ "" → d.alignment = 0 → d.validate = .error (.invalidAlignment name 0)) ∧
    (name ≠ "" → d.alignment ≠ 0 → d.flags.Collides → ∃ key, d.flags.FirstRepeat key ∧
      d.validate = .error (.duplicateCompiler name (CompilerId.ofString key).text)) ∧
    (name ≠ "" → d.alignment ≠ 0 → ¬ d.flags.Collides → ∃ a, d.validate = .ok a) ∧
    ∀ a, d.validate = .ok a →
      a.name = name ∧ a.environment = d.environment ∧ a.header = d.header ∧
      a.alignment = d.alignment ∧ a.checks = d.checks ∧
      a.flagTable.keys.length = d.flags.keys.length ∧
      ∀ s : String,
        (∀ key ∈ d.flags.keys, CompilerId.ofString key = CompilerId.ofString s →
          (∀ other ∈ d.flags.keys, CompilerId.ofString other = CompilerId.ofString s →
            other = key) ∧
          d.flags.find? key = some (a.flags (.ofString s)) ∧
          a.supports (.ofString s) = true) ∧
        ((∀ key ∈ d.flags.keys, CompilerId.ofString key ≠ CompilerId.ofString s) →
          a.flags (.ofString s) = [] ∧ a.supports (.ofString s) = d.flags.isEmpty) := by
  intro name
  refine ⟨fun hName => ?_, fun hName hAlign => ?_, validate_of_collides,
    fun hName hAlign hFree => ?_, fun a h => ?_⟩
  · rw [validate, if_pos hName]
  · rw [validate, if_neg hName, if_pos hAlign, hAlign]
  · exact d.validate_isOk_iff.mpr ⟨hName, hAlign, (FlagTable.nodup_compilers_iff d.flags).mpr hFree⟩
  · have hFree : ¬ d.flags.Collides :=
      (FlagTable.nodup_compilers_iff d.flags).mp (d.validate_isOk_iff.mp ⟨a, h⟩).compilers_nodup
    have hFields : a.name = name ∧ a.environment = d.environment ∧ a.header = d.header ∧
        a.alignment = d.alignment ∧ a.checks = d.checks := by
      obtain ⟨-, -, table, -, rfl⟩ := (validate_eq_ok_iff d a).mp h
      exact ⟨rfl, rfl, rfl, rfl, rfl⟩
    obtain ⟨hName, hEnvironment, hHeader, hAlign, hChecks⟩ := hFields
    refine ⟨hName, hEnvironment, hHeader, hAlign, hChecks, Architecture.length_keys_of_validate h,
      fun s => ⟨fun key hKey hSame => ?_, Architecture.flags_of_no_key h⟩⟩
    refine ⟨fun other hOther hAlso => ?_, Architecture.flags_of_key h hKey hSame⟩
    exact FlagTable.eq_of_compiler_eq hFree hOther hKey (hAlso.trans hSame.symm)

/-- A capital sigma is a final one at the end of a key, so `ΟΔΟΣ` collides with one of the two small
spellings only. -/
theorem ArchDef.validate_outcome_of_sigmas :
    let good : ArchDef :=
      { name := " avx ", flags := .ofList [(" GCC ", ["-mavx"]), ("ΟΔΟΣ", []), ("οδοσ", ["-x"])] }
    let bad : ArchDef := { good with flags := good.flags.insert "οδος" ["-y"] }
    (∃ a, good.validate = .ok a ∧ a.name = "avx" ∧
      good.flags.find? " GCC " = some (a.flags (.ofString "gcc")) ∧
      a.supports (.ofString "gcc") = true ∧ a.flags (.ofString "icc") = [] ∧
      a.supports (.ofString "icc") = false) ∧
    ∃ key, bad.flags.FirstRepeat key ∧
      bad.validate = .error (.duplicateCompiler "avx" (CompilerId.ofString key).text) := by
  intro good bad
  have hTrim : Text.trim " avx " = "avx" := by decide +kernel
  have hName : Text.trim " avx " ≠ "" := by decide +kernel
  have hAlign : (1 : UInt32) ≠ 0 := by decide
  have hKey : " GCC " ∈ good.flags.keys := by decide +kernel
  have hSame : CompilerId.ofString " GCC " = CompilerId.ofString "gcc" := by decide +kernel
  have hOther : ∀ key ∈ good.flags.keys, CompilerId.ofString key ≠ CompilerId.ofString "icc" := by
    decide +kernel
  obtain ⟨-, -, -, hAccepted, hGood⟩ := validate_outcome good
  obtain ⟨-, -, hRefused, -, -⟩ := validate_outcome bad
  obtain ⟨a, hValid⟩ := hAccepted hName hAlign (by decide +kernel)
  obtain ⟨hNamed, -, -, -, -, -, hFlags⟩ := hGood a hValid
  obtain ⟨-, hFound, hSupports⟩ := (hFlags "gcc").1 " GCC " hKey hSame
  obtain ⟨hEmpty, hNot⟩ := (hFlags "icc").2 hOther
  refine ⟨⟨a, hValid, hNamed.trans hTrim, hFound, hSupports, hEmpty, hNot⟩, ?_⟩
  exact hTrim ▸ hRefused hName hAlign (by decide +kernel)

end TargetCatalog
