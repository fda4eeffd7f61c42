import Mathlib.Data.Finset.Card
import TargetCatalog.Proofs.Query.Available
import TargetCatalog.Proofs.Text.Separator

/-!
# Sets of architectures that are listed

The available architectures are listed in one text. It holds the names that stand between its
separators, less the white space around them; their order, repetitions and empty places do not
count. The names of registered architectures are trimmed and not empty, so a list of them holds
just these names, unless one has the separator in it: such a name is held by no list at all.
-/

namespace TargetCatalog

open Text

namespace ArchSet

/-- The name is what a piece of the list comes to without the white space around it. -/
def Lists (list name : String) : Prop :=
  name ≠ "" ∧ ∃ piece, IsPiece separator list piece ∧ trim piece = name

theorem contains_parse_iff (list name : String) :
    (parse list).contains name = true ↔ Lists list name := by
  rw [parse, contains_ofNames, List.mem_filter, List.mem_map, Lists]
  simp only [mem_split_iff, decide_eq_true_eq]
  exact and_comm

theorem exists_finset_parse (list : String) : ∃ names : Finset String,
    names.card = (parse list).size ∧ ∀ name, name ∈ names ↔ Lists list name := by
  refine ⟨(parse list).names.toFinset, List.toFinset_card_of_nodup (nodup_eraseDups _), ?_⟩
  intro name
  rw [List.mem_toFinset, ← contains_parse_iff, contains, List.contains_iff_mem]

theorem not_lists_of_mem_separator {name : String} (h : separator ∈ name.toList) (list : String) :
    ¬ Lists list name := by
  rintro ⟨-, piece, ⟨hFree, -⟩, rfl⟩
  rw [toList_trim] at h
  exact hFree (mem_of_mem_trimChars h)

/-- Names that are trimmed, not empty and free of the separator are what a list of them holds. -/
theorem lists_join_iff {names : List String}
    (hNames : ∀ name ∈ names, name ≠ "" ∧ trim name = name ∧ separator ∉ name.toList)
    (name : String) : Lists (join (.singleton separator) names) name ↔ name ∈ names := by
  rw [Lists]
  simp only [← mem_split_iff]
  rcases eq_or_ne names [] with rfl | hSome
  · have hEmpty : split separator (join (.singleton separator) []) = [""] := rfl
    have hTrim : trim "" = "" := rfl
    rw [hEmpty]
    simp [hTrim, eq_comm]
  · have hFree : ∀ piece ∈ names, separator ∉ piece.toList := fun piece h => (hNames piece h).2.2
    rw [(split_join_eq_iff hSome).mpr hFree]
    constructor
    · rintro ⟨-, piece, hPiece, rfl⟩
      rwa [(hNames piece hPiece).2.1]
    · intro hName
      exact ⟨(hNames name hName).1, name, hName, (hNames name hName).2.1⟩

end ArchSet

namespace Registry

theorem machinesMatching_congr (r : Registry) {s t : ArchSet}
    (h : ∀ n, s.contains n = true ↔ t.contains n = true) :
    r.machinesMatching s = r.machinesMatching t :=
  (machinesMatching_sublist r fun n => (h n).mp).antisymm
    (machinesMatching_sublist r fun n => (h n).mpr)

end Registry

namespace RegistryBuilder.Consistent

variable {b : RegistryBuilder} {names : List String} {m : Machine}

/-- A list of registered names that are free of the separator holds just these. -/
theorem lists_join_iff (h : b.Consistent)
    (hNames : ∀ name ∈ names, name ∈ b.archs.names ∧ ArchSet.separator ∉ name.toList)
    (name : String) :
    ArchSet.Lists (join (.singleton ArchSet.separator) names) name ↔ name ∈ names := by
  refine ArchSet.lists_join_iff (fun n hn => ?_) name
  obtain ⟨hRegistered, hFree⟩ := hNames n hn
  obtain ⟨arch, hArch, rfl⟩ := List.mem_map.mp hRegistered
  have hOrder := h.wellFormed.archs.inOrder arch hArch
  exact ⟨hOrder.name_ne_empty, hOrder.trim_name, hFree⟩

theorem mem_names_of_member (h : b.Consistent) (hm : m ∈ b.machines.machines) {name : String}
    (hName : name ∈ m.archs) : name ∈ b.archs.names := by
  obtain ⟨members, hMembers⟩ := h.members m hm
  rw [← hMembers.names] at hName
  obtain ⟨arch, hArch, rfl⟩ := List.mem_map.mp hName
  exact List.mem_map_of_mem (hMembers.mem hArch)

theorem mem_machinesMatching_own_list (h : b.Consistent) (hm : m ∈ b.machines.machines)
    (hFree : ∀ name ∈ m.archs, ArchSet.separator ∉ name.toList) :
    m.name ∈ b.finish.machinesMatching
      (.parse (join (.singleton ArchSet.separator) m.archs)) := by
  rw [Registry.name_mem_machinesMatching_iff h.wellFormed.machines hm, List.all_eq_true]
  intro name hName
  rw [ArchSet.contains_parse_iff, h.lists_join_iff fun n hn =>
    ⟨h.mem_names_of_member hm hn, hFree n hn⟩]
  exact hName

theorem not_mem_machinesMatching_list (h : b.Consistent) (hm : m ∈ b.machines.machines)
    {name : String} (hName : name ∈ m.archs) (hSep : ArchSet.separator ∈ name.toList)
    (list : String) : m.name ∉ b.finish.machinesMatching (.parse list) := by
  rw [Registry.name_mem_machinesMatching_iff h.wellFormed.machines hm, List.all_eq_true]
  intro hAll
  have hListed := (ArchSet.contains_parse_iff list name).mp (hAll name hName)
  exact ArchSet.not_lists_of_mem_separator hSep list hListed

end RegistryBuilder.Consistent

/-- A parsed list is the set of the names that it holds, and only this set counts for a query. A
list of registered names is read back as these names when none has a `;` in it; so a machine with
such members is found for the list of them, and a machine with any other member for no list. -/
theorem ArchSet.parse_holds_listed_names :
    (∀ list name, (parse list).contains name = true ↔ Lists list name) ∧
    (∀ list, ∃ names : Finset String,
      names.card = (parse list).size ∧ ∀ name, name ∈ names ↔ Lists list name) ∧
    (∀ (r : Registry) (list other : String), (∀ name, Lists list name ↔ Lists other name) →
      r.machinesMatching (parse list) = r.machinesMatching (parse other)) ∧
    ∀ steps : List BuildStep,
      let r := (RegistryBuilder.empty.run steps).2.finish
      (∀ names, (∀ name ∈ names, name ∈ r.archs.names ∧ ';' ∉ name.toList) →
        ∀ name, (parse (join ";" names)).contains name = true ↔ name ∈ names) ∧
      (∀ m ∈ r.machines.machines, (∀ name ∈ m.archs, ';' ∉ name.toList) →
        m.name ∈ r.machinesMatching (parse (join ";" m.archs))) ∧
      ∀ m ∈ r.machines.machines, (∃ name ∈ m.archs, ';' ∈ name.toList) →
        ∀ list, m.name ∉ r.machinesMatching (parse list) := by
  refine ⟨contains_parse_iff, exists_finset_parse, fun r list other hSame => ?_, fun steps => ?_⟩
  · refine r.machinesMatching_congr fun name => ?_
    rw [contains_parse_iff, contains_parse_iff, hSame]
  · intro r
    have h : (RegistryBuilder.empty.run steps).2.Consistent :=
      RegistryBuilder.consistent_empty.run steps
    refine ⟨fun names hNames name => ?_, fun m hm => h.mem_machinesMatching_own_list hm, ?_⟩
    · rw [contains_parse_iff]
      exact h.lists_join_iff hNames name
    · rintro m hm ⟨name, hName, hSep⟩
      exact h.not_mem_machinesMatching_list hm hName hSep

/-- The name `a;b` is registered, but its machine is not found for a list of the two pieces. -/
theorem ArchSet.parse_holds_listed_names_of_separator :
    let r := (RegistryBuilder.empty.run [.arch (.named "sse"), .arch (.named " avx"),
      .arch (.named "a;b"), .machine "m" ["sse", "avx"], .machine "x" ["sse|a;b"]]).2.finish
    (∀ name, Lists ";avx ;;\u3000sse;avx" name ↔ Lists "sse;avx" name) ∧
    r.machinesMatching (parse ";avx ;;\u3000sse;avx") = r.machinesMatching (parse "sse;avx") ∧
    (parse (join ";" ["avx", "sse"])).contains "sse" = true ∧
    "m" ∈ r.machinesMatching (parse (join ";" ["sse", "avx"])) ∧
    "x_a;b" ∉ r.machinesMatching (parse "sse;a;b") := by
  intro r
  obtain ⟨hContains, -, hSame, hBuilt⟩ := parse_holds_listed_names
  obtain ⟨hJoin, hFound, hNever⟩ := hBuilt [.arch (.named "sse"), .arch (.named " avx"),
    .arch (.named "a;b"), .machine "m" ["sse", "avx"], .machine "x" ["sse|a;b"]]
  have hPadded : parse ";avx ;;\u3000sse;avx" = ⟨["avx", "sse"]⟩ := by decide +kernel
  have hPlain : parse "sse;avx" = ⟨["sse", "avx"]⟩ := by decide +kernel
  have hLists : ∀ name, Lists ";avx ;;\u3000sse;avx" name ↔ Lists "sse;avx" name := by
    intro name
    rw [← hContains, ← hContains, hPadded, hPlain]
    simp [contains, or_comm]
  have hNames : ∀ name ∈ ["avx", "sse"], name ∈ r.archs.names ∧ ';' ∉ name.toList := by
    decide +kernel
  obtain ⟨m, hm, hName, hMembers⟩ : ∃ m ∈ r.machines.machines,
      m.name = "m" ∧ m.archs = ["sse", "avx"] := by
    decide +kernel
  obtain ⟨x, hx, hOther, hSeparator⟩ : ∃ m ∈ r.machines.machines,
      m.name = "x_a;b" ∧ ∃ name ∈ m.archs, ';' ∈ name.toList := by
    decide +kernel
  have hFree : ∀ name ∈ m.archs, ';' ∉ name.toList := by
    rw [hMembers]
    decide +kernel
  have hOwn := hFound m hm hFree
  rw [hName, hMembers] at hOwn
  have hNot := hNever x hx hSeparator "sse;a;b"
  rw [hOther] at hNot
  exact ⟨hLists, hSame r _ _ hLists, (hJoin _ hNames "sse").mpr (by simp), hOwn, hNot⟩

end TargetCatalog
