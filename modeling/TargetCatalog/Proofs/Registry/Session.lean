import TargetCatalog.Proofs.Machine.Catalogue
import TargetCatalog.Registry.Session

/-!
# Catalogues in every session

Whatever is registered in a session, and in whatever order, every catalogue stays well formed: a
step changes at most one of them, and only by registration. What a name finds and what a declaration
of machines comes to can then be said of all catalogues that a session can reach.
-/

namespace TargetCatalog.Session

structure WellFormed (s : Session) : Prop where
  archs : ∀ k, (s.archs k).WellFormed
  machines : ∀ k, (s.machines k).WellFormed

theorem wellFormed_empty : empty.WellFormed :=
  ⟨fun _ => ArchCatalogue.wellFormed_empty, fun _ => MachineCatalogue.wellFormed_empty⟩

section Replace

variable {α : Type} {f : Nat → α} {k : Nat}

theorem replace_self : (fun n => if n = k then f k else f n) = f := by
  funext n
  split
  · subst n
    rfl
  · rfl

theorem forall_replace {P : α → Prop} {new : α} (hNew : P new) (h : ∀ n, P (f n)) (n : Nat) :
    P (if n = k then new else f n) := by
  split
  · exact hNew
  · exact h n

end Replace

section Step

variable {s : Session} {k a : Nat} {d : ArchDef} {name : String} {entries : List String}
  {e : RegistryError} {archs : ArchCatalogue} {machines : MachineCatalogue}

theorem setArchs_self (s : Session) (k : Nat) : s.setArchs k (s.archs k) = s := by
  rw [setArchs, replace_self]

theorem setMachines_self (s : Session) (k : Nat) : s.setMachines k (s.machines k) = s := by
  rw [setMachines, replace_self]

theorem setArchs_archs (s : Session) (n : Nat) (c : ArchCatalogue) (k : Nat) :
    (s.setArchs n c).archs k = if k = n then c else s.archs k := rfl

@[simp] theorem setMachines_machines_self : (s.setMachines k machines).machines k = machines :=
  if_pos rfl

theorem WellFormed.setArchs (h : s.WellFormed) (hArchs : archs.WellFormed) :
    (s.setArchs k archs).WellFormed :=
  ⟨forall_replace hArchs h.archs, h.machines⟩

theorem WellFormed.setMachines (h : s.WellFormed) (hMachines : machines.WellFormed) :
    (s.setMachines k machines).WellFormed :=
  ⟨h.archs, forall_replace hMachines h.machines⟩

theorem step_arch_of_error (h : (ArchCatalogue.register d).run (s.archs k) = .error e archs) :
    s.step (.arch k d) = (.error e, s) := by
  rw [step, h, ArchCatalogue.eq_of_register_eq_error h]
  exact congrArg _ (setArchs_self s k)

theorem step_arch_of_ok {i : ArchIndex}
    (h : (ArchCatalogue.register d).run (s.archs k) = .ok i archs) :
    s.step (.arch k d) = (.ok (.arch i), s.setArchs k archs) := by
  rw [step, h]

theorem step_machine_of_error
    (h : (MachineCatalogue.register (s.archs a) name entries).run (s.machines k) =
      .error e machines) : s.step (.machine k a name entries) = (.error e, s) := by
  rw [step, h, MachineCatalogue.eq_of_register_eq_error h]
  exact congrArg _ (setMachines_self s k)

theorem step_machine_of_ok {added : List Machine}
    (h : (MachineCatalogue.register (s.archs a) name entries).run (s.machines k) =
      .ok added machines) :
    s.step (.machine k a name entries) = (.ok (.machines added), s.setMachines k machines) := by
  rw [step, h]

/-- A step is refused and changes nothing, or replaces one catalogue by what registration makes
of it. -/
theorem step_cases (s : Session) (x : SessionStep) :
    (∃ e, s.step x = (.error e, s)) ∨
    (∃ k d i archs, x = .arch k d ∧
      (ArchCatalogue.register d).run (s.archs k) = .ok i archs ∧
      s.step x = (.ok (.arch i), s.setArchs k archs)) ∨
    ∃ k a name entries added machines, x = .machine k a name entries ∧
      (MachineCatalogue.register (s.archs a) name entries).run (s.machines k) =
        .ok added machines ∧
      s.step x = (.ok (.machines added), s.setMachines k machines) := by
  cases x with
  | arch k d =>
    cases hRegister : (ArchCatalogue.register d).run (s.archs k) with
    | error e after => exact .inl ⟨e, step_arch_of_error hRegister⟩
    | ok i after => exact .inr (.inl ⟨k, d, i, after, rfl, hRegister, step_arch_of_ok hRegister⟩)
  | machine k a name entries =>
    cases hRegister : (MachineCatalogue.register (s.archs a) name entries).run (s.machines k) with
    | error e after => exact .inl ⟨e, step_machine_of_error hRegister⟩
    | ok added after =>
      exact .inr (.inr ⟨k, a, name, entries, added, after, rfl, hRegister,
        step_machine_of_ok hRegister⟩)

end Step

theorem WellFormed.step {s : Session} (h : s.WellFormed) (x : SessionStep) :
    (s.step x).2.WellFormed := by
  obtain ⟨e, hStep⟩ | ⟨k, d, i, archs, -, hRegister, hStep⟩ |
    ⟨k, a, name, entries, added, machines, -, hRegister, hStep⟩ := s.step_cases x
  · rw [hStep]
    exact h
  · rw [hStep]
    exact h.setArchs ((h.archs k).register hRegister)
  · rw [hStep]
    exact h.setMachines ((h.machines k).register hRegister)

theorem run_append (s : Session) (past future : List SessionStep) :
    s.run (past ++ future) = (s.run past).run future :=
  List.foldl_append

theorem WellFormed.run {s : Session} (h : s.WellFormed) (steps : List SessionStep) :
    (s.run steps).WellFormed := by
  induction steps generalizing s with
  | nil => exact h
  | cons x steps ih => exact ih (h.step x)

/-- In every session the names of a catalogue are different and in order, and a name finds exactly
the entry that has it. -/
theorem run_lookups_agree (steps : List SessionStep) (k : Nat) :
    let A := (empty.run steps).archs k
    let M := (empty.run steps).machines k
    ((∀ arch ∈ A.archs, arch.name ≠ "" ∧ Text.trim arch.name = arch.name ∧ 1 ≤ arch.alignment) ∧
      A.names.Nodup ∧
      (∀ name i, A.lookup name = some i ↔ ∃ arch, A.get? i = some arch ∧ arch.name = name) ∧
      ∀ name arch, A.find? name = some arch ↔ arch ∈ A.archs ∧ arch.name = name) ∧
    ((∀ m ∈ M.machines, ∀ arch ∈ m.archs,
        arch ≠ "" ∧ Text.trim arch = arch ∧ choiceDelimiter ∉ arch.toList) ∧
      M.names.Nodup ∧
      (∀ name i, M.index.find? name = some i → i < M.machines.length) ∧
      ∀ name m, M.find? name = some m ↔ m ∈ M.machines ∧ m.name = name) := by
  intro A M
  have hRun := wellFormed_empty.run steps
  have hA : A.WellFormed := hRun.archs k
  have hM : M.WellFormed := hRun.machines k
  refine ⟨⟨?_, hA.agrees.nodup, ?_, hA.find?_eq_some_iff⟩, ?_, hM.agrees.nodup, ?_,
    hM.find?_eq_some_iff⟩
  · intro arch hArch
    obtain ⟨hName, hTrim, hAlign⟩ := hA.inOrder arch hArch
    exact ⟨hName, hTrim, hAlign⟩
  · intro name i
    rw [hA.lookup_eq_some_iff, Option.map_eq_some_iff]
  · intro m hm arch hArch
    obtain ⟨hNe, hTrim, hBar⟩ := hM.members m hm arch hArch
    exact ⟨hNe, hTrim, hBar⟩
  · intro name i hFound
    simpa [MachineCatalogue.names] using hM.agrees.lt_length hFound

/-- A declaration of machines fails at its first variant that has a taken name or an unknown
member, and then changes nothing; without such a variant all of its machines are appended. The two
catalogues are any that sessions can reach. -/
theorem step_machine_first_fault (archPast machinePast : List SessionStep) (k a : Nat)
    (name : String) (entries : List String) :
    let A := (empty.run archPast).archs a
    let M := (empty.run machinePast).machines k
    let s : Session := ⟨(empty.run archPast).archs, (empty.run machinePast).machines⟩
    let vs := expand name entries
    let result := s.step (.machine k a name entries)
    (∀ i v, vs[i]? = some v →
      (∀ j < i, ¬ M.Collides vs j ∧ ¬ MachineCatalogue.Unresolved A vs j) →
      (M.Collides vs i → result = (.error (.duplicateMachine v.name), s)) ∧
      (¬ M.Collides vs i → MachineCatalogue.Unresolved A vs i → ∃ missing,
        v.archs.find? (fun arch => (A.lookup arch).isNone) = some missing ∧
          result = (.error (.unknownArch v.name missing), s))) ∧
    ((∀ i, ¬ M.Collides vs i ∧ ¬ MachineCatalogue.Unresolved A vs i) → ∃ added,
      result.1 = .ok (.machines added) ∧
      (added.map fun m => (⟨m.name, m.archs⟩ : MachineVariant)) = vs ∧
      (result.2.machines k).machines = M.machines ++ added ∧
      ∀ n m, (result.2.machines k).find? n = some m ↔ m ∈ M.machines ++ added ∧ m.name = n) := by
  intro A M s vs result
  have hM : M.WellFormed := (wellFormed_empty.run machinePast).machines k
  constructor
  · intro i v hv hGood
    constructor
    · intro hFault
      exact step_machine_of_error (hM.register_eq_duplicate rfl hv hGood hFault)
    · rintro hFree ⟨u, hu, arch, hArch, hLookup⟩
      cases hv.symm.trans hu
      cases hMissing : v.firstUnknown? A with
      | none => exact absurd hLookup ((v.firstUnknown?_eq_none_iff).mp hMissing arch hArch)
      | some missing =>
        exact ⟨missing, hMissing,
          step_machine_of_error (hM.register_eq_unknown rfl hv hGood hFree hMissing)⟩
  · intro hGood
    obtain ⟨added, after, hRegister⟩ := hM.exists_register_of_good hGood
    have hResult : result = _ := step_machine_of_ok (s := s) hRegister
    obtain ⟨-, hAdded, hAfter⟩ := (M.register_eq_ok_iff A name entries added after).mp hRegister
    have hMachines : after.machines = M.machines ++ added := by
      rw [hAfter, MachineCatalogue.machines_foldl_push]
    refine ⟨added, by rw [hResult], ?_, ?_, ?_⟩
    · rw [hAdded, List.map_map]
      exact List.map_id vs
    · simpa [hResult] using hMachines
    · intro n m
      rw [← hMachines, ← (hM.register hRegister).find?_eq_some_iff]
      simp [hResult]

end TargetCatalog.Session
