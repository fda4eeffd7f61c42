import TargetCatalog.Proofs.Query.MachineFlags

/-!
# Answers that stay

A builder only ever appends, so what its registry answers at one moment it answers at every later
one: the lists of the two queries that go through a catalogue only get longer, and a machine that is
there keeps its members and its flags.
-/

namespace TargetCatalog

namespace RegistryBuilder

/-- Both catalogues begin with the entries that they have in an earlier builder. -/
structure Extends (later b : RegistryBuilder) : Prop where
  archs : later.archs.Extends b.archs
  machines : later.machines.Extends b.machines

theorem Extends.refl (b : RegistryBuilder) : b.Extends b :=
  ⟨.refl b.archs, .refl b.machines⟩

theorem Extends.trans {last later b : RegistryBuilder} (h : last.Extends later)
    (h' : later.Extends b) : last.Extends b :=
  ⟨h.archs.trans h'.archs, h.machines.trans h'.machines⟩

theorem extends_of_attempt {b after : RegistryBuilder} {s : BuildStep} {added : Added}
    (h : (attempt s).run b = .ok added after) : after.Extends b := by
  cases s with
  | arch d =>
    obtain ⟨i, archs, hRegister, -, rfl⟩ := (attempt_arch_eq_ok_iff ..).mp h
    exact ⟨ArchCatalogue.extends_of_register hRegister, .refl b.machines⟩
  | machine name entries =>
    obtain ⟨new, machines, hRegister, -, rfl⟩ := (attempt_machine_eq_ok_iff ..).mp h
    exact ⟨.refl b.archs, MachineCatalogue.extends_of_register hRegister⟩

theorem extends_run (b : RegistryBuilder) (steps : List BuildStep) :
    (b.run steps).2.Extends b :=
  run_invariant (P := fun later => later.Extends b)
    (fun _ _ _ _ h hAttempt => (extends_of_attempt hAttempt).trans h) (.refl b) steps

section Answers

variable {b later : RegistryBuilder}

theorem Extends.archFlags_prefix (h : later.Extends b) (compiler : CompilerId) :
    b.finish.archFlags compiler <+: later.finish.archFlags compiler :=
  (h.archs.filter _).map _

theorem Extends.machinesMatching_prefix (h : later.Extends b) (available : ArchSet) :
    b.finish.machinesMatching available <+: later.finish.machinesMatching available :=
  (h.machines.filter _).map _

variable {name : String} {m : Machine}

theorem Extends.machine?_eq_some (h : later.Extends b) (hb : b.Consistent)
    (hLater : later.Consistent) (hm : b.finish.machine? name = some m) :
    later.finish.machine? name = some m := by
  obtain ⟨hMem, hName⟩ := hb.machine?_eq_some_iff.mp hm
  exact hLater.machine?_eq_some_iff.mpr ⟨h.machines.subset hMem, hName⟩

/-- The stored positions lead to the same architectures in the longer catalogue. -/
theorem Extends.exists_members? (h : later.Extends b) (hb : b.Consistent)
    (hLater : later.Consistent) (hm : b.finish.machine? name = some m) :
    ∃ members, b.finish.members? name = some members ∧
      later.finish.members? name = some members := by
  obtain ⟨members, hMembers, hNow⟩ := hb.exists_members? hm
  refine ⟨members, hNow, ?_⟩
  rw [Registry.members?, h.machine?_eq_some hb hLater hm, Option.map_some]
  exact congrArg some (hMembers.of_extends h.archs).filterMap_get?

end Answers

/-- Whatever a registry answers in the course of building, it still answers when more has been
declared: the listed architectures and machines come first and in the same order, and a machine
that is found keeps all that is stored of it and its flags for every compiler. -/
theorem run_keeps_answers (past future : List BuildStep) :
    let b := (empty.run past).2
    let r := b.finish
    let r' := (b.run future).2.finish
    (∀ compiler, r.archFlags compiler <+: r'.archFlags compiler) ∧
    (∀ available, r.machinesMatching available <+: r'.machinesMatching available) ∧
    ∀ name m, r.machine? name = some m →
      r'.machine? name = some m ∧
      ∀ compiler, ∃ flags, r.machineFlags compiler name = .ok flags ∧
        r'.machineFlags compiler name = .ok flags := by
  intro b r r'
  have hb : b.Consistent := consistent_empty.run past
  have hLater : (b.run future).2.Consistent := hb.run future
  have h : (b.run future).2.Extends b := extends_run b future
  refine ⟨h.archFlags_prefix, h.machinesMatching_prefix, ?_⟩
  intro name m hm
  refine ⟨h.machine?_eq_some hb hLater hm, fun compiler => ?_⟩
  obtain ⟨members, hNow, hThen⟩ := h.exists_members? hb hLater hm
  refine ⟨members.flatMap (·.flags compiler), ?_, ?_⟩
  · rw [Registry.machineFlags, hNow]
  · rw [Registry.machineFlags, hThen]

theorem run_keeps_answers_of_refused :
    let past : List BuildStep := [.arch ((ArchDef.named "sse").withFlags "gcc" ["-msse"]),
      .machine "m" ["sse|"]]
    let future : List BuildStep := [.arch (.named "sse"), .machine "m" ["sse"],
      .arch (.named "avx"), .machine "n" ["avx|sse"]]
    let r := (empty.run past).2.finish
    let r' := ((empty.run past).2.run future).2.finish
    let m : Machine := ⟨"m_sse", ["sse"], [⟨0⟩], 1⟩
    r.machine? "m_sse" = some m ∧ r'.machines.names = ["m_sse", "m", "n_avx", "n_sse"] ∧
      r'.machine? "m_sse" = some m := by
  intro past future r r' m
  have hm : r.machine? "m_sse" = some m := by decide +kernel
  have hNames : r'.machines.names = ["m_sse", "m", "n_avx", "n_sse"] := by decide +kernel
  exact ⟨hm, hNames, ((run_keeps_answers past future).2.2 "m_sse" m hm).1⟩

end RegistryBuilder

end TargetCatalog
