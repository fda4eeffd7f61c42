import TargetCatalog.Proofs.Machine.Members
import TargetCatalog.Proofs.Registry.Builder

/-!
# Runs of a builder

Whatever is declared to a builder, and whether it is accepted or not, its catalogues stay well
formed, and the positions that its machines keep lead to their members.
-/

namespace TargetCatalog.RegistryBuilder

section Step

variable {b after : RegistryBuilder} {s : BuildStep} {added : Added}

theorem step_eq_ok_iff : b.step s = (.ok added, after) ↔ (attempt s).run b = .ok added after := by
  rw [step]
  cases (attempt s).run b <;> simp

/-- A step is refused and changes nothing, or is taken. -/
theorem step_cases (b : RegistryBuilder) (s : BuildStep) :
    (∃ e, b.step s = (.error e, b)) ∨ ∃ added after, b.step s = (.ok added, after) := by
  cases hAttempt : (attempt s).run b with
  | error e after =>
    rw [step, hAttempt, eq_of_attempt_eq_error hAttempt]
    exact .inl ⟨e, rfl⟩
  | ok added after => exact .inr ⟨added, after, step_eq_ok_iff.mpr hAttempt⟩

theorem step_invariant {P : RegistryBuilder → Prop} (h : P b)
    (hTaken : ∀ added after, (attempt s).run b = .ok added after → P after) :
    P (b.step s).2 := by
  obtain ⟨e, hStep⟩ | ⟨added, after, hStep⟩ := b.step_cases s
  · rw [hStep]
    exact h
  · rw [hStep]
    exact hTaken added after (step_eq_ok_iff.mp hStep)

theorem run_invariant {P : RegistryBuilder → Prop}
    (hTaken : ∀ b s added after, P b → (attempt s).run b = .ok added after → P after)
    (h : P b) (steps : List BuildStep) : P (b.run steps).2 := by
  induction steps generalizing b with
  | nil => exact h
  | cons s steps ih =>
    exact ih (step_invariant h fun added after => hTaken b s added after h)

theorem WellFormed.step (h : b.WellFormed) (s : BuildStep) : (b.step s).2.WellFormed :=
  step_invariant h fun _ _ => h.attempt

end Step

/-- Every machine has its members in the catalogue of architectures beside it. -/
structure Consistent (b : RegistryBuilder) : Prop where
  wellFormed : b.WellFormed
  members : ∀ m ∈ b.machines.machines, ∃ members, m.HasMembers b.archs members

theorem consistent_empty : empty.Consistent :=
  ⟨wellFormed_empty, fun m hm => by cases hm⟩

theorem Consistent.attempt {b after : RegistryBuilder} (h : b.Consistent) {s : BuildStep}
    {added : Added} (hAttempt : (RegistryBuilder.attempt s).run b = .ok added after) :
    after.Consistent := by
  refine ⟨h.wellFormed.attempt hAttempt, ?_⟩
  cases s with
  | arch d =>
    obtain ⟨i, archs, hRegister, -, rfl⟩ := (attempt_arch_eq_ok_iff ..).mp hAttempt
    intro m hm
    obtain ⟨members, hMembers⟩ := h.members m hm
    exact ⟨members, hMembers.of_extends (ArchCatalogue.extends_of_register hRegister)⟩
  | machine name entries =>
    obtain ⟨new, machines, hRegister, -, rfl⟩ := (attempt_machine_eq_ok_iff ..).mp hAttempt
    intro m hm
    have hAll : m ∈ b.machines.machines ++ new :=
      MachineCatalogue.machines_of_register hRegister ▸ hm
    rcases List.mem_append.mp hAll with hOld | hNew
    · exact h.members m hOld
    · exact MachineCatalogue.exists_hasMembers_of_register h.wellFormed.archs hRegister hNew

theorem Consistent.run {b : RegistryBuilder} (h : b.Consistent) (steps : List BuildStep) :
    (b.run steps).2.Consistent :=
  run_invariant (fun _ _ _ _ h => h.attempt) h steps

end TargetCatalog.RegistryBuilder
