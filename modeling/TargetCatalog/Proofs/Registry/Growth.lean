import TargetCatalog.Proofs.Machine.Members
import TargetCatalog.Proofs.Registry.Session

/-!
# Growing sessions

No step takes anything back: every catalogue of a session begins with all that it had before.
Whatever a session has handed out, a position or a machine, therefore stays good for its rest, also
while machines are resolved against several catalogues of architectures that go on growing.
-/

namespace TargetCatalog.Session

/-- Every catalogue begins with the entries that it has in an earlier session. -/
structure Extends (later s : Session) : Prop where
  archs : ∀ k, (later.archs k).Extends (s.archs k)
  machines : ∀ k, (later.machines k).Extends (s.machines k)

theorem Extends.refl (s : Session) : s.Extends s :=
  ⟨fun k => .refl (s.archs k), fun k => .refl (s.machines k)⟩

theorem Extends.trans {last later s : Session} (h : last.Extends later) (h' : later.Extends s) :
    last.Extends s :=
  ⟨fun k => (h.archs k).trans (h'.archs k), fun k => (h.machines k).trans (h'.machines k)⟩

theorem extends_setArchs {s : Session} {k : Nat} {archs : ArchCatalogue}
    (h : archs.Extends (s.archs k)) : (s.setArchs k archs).Extends s := by
  refine ⟨fun n => ?_, fun n => .refl _⟩
  change (if n = k then archs else s.archs n).Extends (s.archs n)
  split
  · rename_i hn
    exact hn ▸ h
  · exact .refl _

theorem extends_setMachines {s : Session} {k : Nat} {machines : MachineCatalogue}
    (h : machines.Extends (s.machines k)) : (s.setMachines k machines).Extends s := by
  refine ⟨fun n => .refl _, fun n => ?_⟩
  change (if n = k then machines else s.machines n).Extends (s.machines n)
  split
  · rename_i hn
    exact hn ▸ h
  · exact .refl _

theorem extends_step (s : Session) (x : SessionStep) : (s.step x).2.Extends s := by
  obtain ⟨e, hStep⟩ | ⟨k, d, i, archs, -, hRegister, hStep⟩ |
    ⟨k, a, name, entries, added, machines, -, hRegister, hStep⟩ := s.step_cases x
  · rw [hStep]
    exact .refl s
  · rw [hStep]
    exact extends_setArchs (ArchCatalogue.extends_of_register hRegister)
  · rw [hStep]
    exact extends_setMachines (MachineCatalogue.extends_of_register hRegister)

theorem extends_run (s : Session) (steps : List SessionStep) : (s.run steps).Extends s := by
  induction steps generalizing s with
  | nil => exact .refl s
  | cons x steps ih => exact (ih (s.step x).2).trans (extends_step s x)

section Returned

variable {s : Session} {k a : Nat} {d : ArchDef} {name : String} {entries : List String}
  {i : ArchIndex} {added : List Machine}

theorem register_of_step_arch (h : (s.step (.arch k d)).1 = .ok (.arch i)) :
    (ArchCatalogue.register d).run (s.archs k) = .ok i ((s.step (.arch k d)).2.archs k) := by
  cases hRegister : (ArchCatalogue.register d).run (s.archs k) with
  | error e after =>
    rw [step_arch_of_error hRegister] at h
    cases h
  | ok j after =>
    rw [step_arch_of_ok hRegister] at h ⊢
    cases h
    simp [setArchs]

theorem register_of_step_machine (h : (s.step (.machine k a name entries)).1 =
      .ok (.machines added)) :
    (MachineCatalogue.register (s.archs a) name entries).run (s.machines k) =
        .ok added ((s.step (.machine k a name entries)).2.machines k) ∧
      (s.step (.machine k a name entries)).2.archs = s.archs := by
  cases hRegister : (MachineCatalogue.register (s.archs a) name entries).run (s.machines k) with
  | error e after =>
    rw [step_machine_of_error hRegister] at h
    cases h
  | ok new after =>
    rw [step_machine_of_ok hRegister] at h ⊢
    cases h
    simp [setMachines]

variable {later : Session}

theorem WellFormed.machine_of_step_machine (hs : s.WellFormed)
    (hStep : (s.step (.machine k a name entries)).1 = .ok (.machines added))
    (hLater : later.Extends (s.step (.machine k a name entries)).2) {p : Nat} {m : Machine}
    (hm : added[p]? = some m) :
    (later.machines k).machines[(s.machines k).size + p]? = some m ∧
      ∃ members, m.HasMembers (later.archs a) members := by
  obtain ⟨hRegister, hArchs⟩ := register_of_step_machine hStep
  constructor
  · have hNow := MachineCatalogue.machines_of_register hRegister
    obtain ⟨rest, hRest⟩ := hLater.machines k
    have hp : p < added.length := (List.getElem?_eq_some_iff.mp hm).1
    rw [← hRest, hNow, List.append_assoc, MachineCatalogue.size,
      List.getElem?_append_right (by omega), Nat.add_sub_cancel_left,
      List.getElem?_append_left hp, hm]
  · obtain ⟨members, hMembers⟩ := MachineCatalogue.exists_hasMembers_of_register (hs.archs a)
      hRegister (List.mem_of_getElem? hm)
    exact ⟨members, hMembers.of_extends (hArchs ▸ hLater.archs a)⟩

theorem get?_of_step_arch (hStep : (s.step (.arch k d)).1 = .ok (.arch i))
    (hLater : later.Extends (s.step (.arch k d)).2) :
    ∃ arch, d.validate = .ok arch ∧ (later.archs k).get? i = some arch := by
  obtain ⟨arch, hValid, -, rfl, hAfter⟩ :=
    (ArchCatalogue.register_eq_ok_iff ..).mp (register_of_step_arch hStep)
  have hNow : ((s.step (.arch k d)).2.archs k).get? ⟨(s.archs k).size⟩ = some arch := by
    simp [hAfter, ArchCatalogue.get?, ArchCatalogue.push, ArchCatalogue.size]
  exact ⟨arch, hValid, (hLater.archs k).get?_eq_some hNow⟩

end Returned

/-- What a session has returned stays good in all that follows. A machine stays where it is, and
its positions, names and alignment describe the same members in the catalogue that it was resolved
against; a position, from a registration or a lookup, keeps its architecture, and the name of that
one keeps its position. -/
theorem run_keeps_references (past future : List SessionStep) :
    let s := empty.run past
    (∀ (k a : Nat) (name : String) (entries : List String) (added : List Machine),
      (s.step (.machine k a name entries)).1 = .ok (.machines added) →
      let later := (s.step (.machine k a name entries)).2.run future
      let A := later.archs a
      ∀ (p : Nat) (m : Machine), added[p]? = some m →
        (later.machines k).machines[(s.machines k).size + p]? = some m ∧
        (later.machines k).find? m.name = some m ∧
        m.members.length = m.archs.length ∧
        (∀ (q : Nat) (n : String), m.archs[q]? = some n → ∃ i arch,
          m.members[q]? = some i ∧ A.get? i = some arch ∧ arch.name = n) ∧
        IsLargestAlignment m.alignment (m.members.filterMap A.get?)) ∧
    (∀ (k : Nat) (d : ArchDef) (i : ArchIndex), (s.step (.arch k d)).1 = .ok (.arch i) →
      let later := (s.step (.arch k d)).2.run future
      ∃ arch, d.validate = .ok arch ∧ (later.archs k).get? i = some arch ∧
        (later.archs k).lookup arch.name = some i) ∧
    ∀ (k : Nat) (name : String) (i : ArchIndex), (s.archs k).lookup name = some i →
      let later := s.run future
      ∃ arch, (s.archs k).get? i = some arch ∧ arch.name = name ∧
        (later.archs k).get? i = some arch ∧ (later.archs k).lookup name = some i := by
  intro s
  have hs : s.WellFormed := wellFormed_empty.run past
  refine ⟨?_, ?_, ?_⟩
  · intro k a name entries added hStep later A p m hm
    have hWell : later.WellFormed := (hs.step _).run future
    obtain ⟨hStored, members, hMembers⟩ :=
      hs.machine_of_step_machine hStep (extends_run _ future) hm
    have hFound : (later.machines k).find? m.name = some m :=
      ((hWell.machines k).find?_eq_some_iff m.name m).mpr ⟨List.mem_of_getElem? hStored, rfl⟩
    refine ⟨hStored, hFound, hMembers.length_eq, fun q n => hMembers.exists_get?, ?_⟩
    rw [hMembers.filterMap_get?]
    exact hMembers.alignment
  · intro k d i hStep later
    have hWell : later.WellFormed := (hs.step _).run future
    obtain ⟨arch, hValid, hGet⟩ := get?_of_step_arch hStep (extends_run _ future)
    exact ⟨arch, hValid, hGet, (hWell.archs k).lookup_of_get? hGet⟩
  · intro k name i hFound later
    have hLater : later.Extends s := extends_run s future
    have hWell : later.WellFormed := hs.run future
    obtain ⟨arch, hGet, hName⟩ := (hs.archs k).exists_get?_of_lookup hFound
    exact ⟨arch, hGet, hName, (hLater.archs k).get?_eq_some hGet,
      (hLater.archs k).lookup_eq_some (hs.archs k) (hWell.archs k) hFound⟩

theorem run_keeps_references_of_alternatives :
    let past : List SessionStep :=
      [.arch 1 (.named "avx"), .arch 1 ((ArchDef.named "sse").withAlignment 16)]
    let future : List SessionStep := [.arch 1 (.named "fma"), .machine 0 1 "n" ["fma"]]
    let taken := (empty.run past).step (.machine 0 1 "m" ["sse|avx"])
    let m : Machine := ⟨"m_sse", ["sse"], [⟨1⟩], 16⟩
    taken.1 = .ok (.machines [m, ⟨"m_avx", ["avx"], [⟨0⟩], 1⟩]) ∧
      ((taken.2.run future).machines 0).find? m.name = some m ∧
      IsLargestAlignment m.alignment
        (m.members.filterMap ((taken.2.run future).archs 1).get?) := by
  intro past future taken m
  have hTaken : taken.1 = .ok (.machines [m, ⟨"m_avx", ["avx"], [⟨0⟩], 1⟩]) := by decide +kernel
  obtain ⟨-, hFound, -, -, hAlignment⟩ :=
    (run_keeps_references past future).1 0 1 "m" ["sse|avx"] _ hTaken 0 m rfl
  exact ⟨hTaken, hFound, hAlignment⟩

end TargetCatalog.Session
