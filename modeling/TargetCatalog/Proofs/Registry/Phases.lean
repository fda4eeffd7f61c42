import TargetCatalog.Proofs.Registry.Run

/-!
# Building in two phases

The steps of a run that are refused leave no trace, and an accepted machine can wait until all
architectures are registered: it is resolved as before, and takes no name from them. So the accepted
steps of any run can be taken again with the architectures first, as definitions list them, and the
registry is the same.
-/

namespace TargetCatalog

def BuildStep.isArch : BuildStep → Bool
  | arch _ => true
  | machine .. => false

/-- The declarations of some steps, those of either kind in the order of the steps. -/
def Definitions.ofSteps (steps : List BuildStep) : Definitions where
  archs := steps.filterMap fun
    | .arch d => some d
    | .machine .. => none
  machines := steps.filterMap fun
    | .arch _ => none
    | .machine name entries => some ⟨name, .list entries⟩

theorem Definitions.steps_ofSteps (steps : List BuildStep) :
    (ofSteps steps).steps = steps.filter (·.isArch) ++ steps.filter (!·.isArch) := by
  have hBoth : (ofSteps steps).archs.map BuildStep.arch = steps.filter (·.isArch) ∧
      ((ofSteps steps).machines.map fun m => BuildStep.machine m.name m.archs.entries) =
        steps.filter (!·.isArch) := by
    induction steps with
    | nil => exact ⟨rfl, rfl⟩
    | cons s steps ih =>
      obtain ⟨hArchs, hMachines⟩ := ih
      cases s with
      | arch d => exact ⟨congrArg (BuildStep.arch d :: ·) hArchs, hMachines⟩
      | machine name entries =>
        exact ⟨hArchs, congrArg (BuildStep.machine name entries :: ·) hMachines⟩
  rw [Definitions.steps, hBoth.1, hBoth.2]

namespace RegistryBuilder

/-- The steps of a run that are taken, and what each of them adds. -/
def taken (b : RegistryBuilder) (steps : List BuildStep) : List (BuildStep × Added) :=
  (steps.zip (b.run steps).1).filterMap fun (s, outcome) =>
    outcome.toOption.map fun added => (s, added)

/-- Architectures before machines, those of either kind in the order they had. -/
def inPhases (l : List (BuildStep × Added)) : List (BuildStep × Added) :=
  l.filter (·.1.isArch) ++ l.filter (!·.1.isArch)

/-- All of the steps are taken, one after the other, and add what stands beside them. -/
def Accepts (b : RegistryBuilder) (l : List (BuildStep × Added)) (last : RegistryBuilder) : Prop :=
  b.run (l.map (·.1)) = (l.map fun p => .ok p.2, last)

section Accepted

variable {b middle last : RegistryBuilder} {s : BuildStep} {added : Added}
  {l : List (BuildStep × Added)}

theorem accepts_nil_iff : b.Accepts [] last ↔ b = last := by
  simp [Accepts, run]

theorem accepts_cons_iff : b.Accepts ((s, added) :: l) last ↔
    ∃ middle, b.step s = (.ok added, middle) ∧ middle.Accepts l last := by
  simp only [Accepts, List.map_cons, run, Prod.mk.injEq, List.cons.injEq]
  constructor
  · rintro ⟨⟨hOutcome, hOutcomes⟩, hLast⟩
    exact ⟨(b.step s).2, Prod.ext hOutcome rfl, Prod.ext hOutcomes hLast⟩
  · rintro ⟨middle, hStep, hRest⟩
    rw [hStep, hRest]
    exact ⟨⟨rfl, rfl⟩, rfl⟩

theorem accepts_append_iff {l' : List (BuildStep × Added)} : b.Accepts (l ++ l') last ↔
    ∃ middle, b.Accepts l middle ∧ middle.Accepts l' last := by
  induction l generalizing b with
  | nil => simp [accepts_nil_iff]
  | cons p l ih =>
    obtain ⟨s, added⟩ := p
    rw [List.cons_append, accepts_cons_iff]
    simp only [ih, accepts_cons_iff]
    constructor
    · rintro ⟨next, hStep, middle, hFirst, hSecond⟩
      exact ⟨middle, ⟨next, hStep, hFirst⟩, hSecond⟩
    · rintro ⟨middle, ⟨next, hStep, hFirst⟩, hSecond⟩
      exact ⟨next, hStep, middle, hFirst, hSecond⟩

theorem taken_cons_of_ok {steps : List BuildStep} (h : b.step s = (.ok added, middle)) :
    b.taken (s :: steps) = (s, added) :: middle.taken steps := by
  simp [taken, run, h, Except.toOption]

theorem taken_cons_of_error {steps : List BuildStep} {e : RegistryError}
    (h : b.step s = (.error e, b)) : b.taken (s :: steps) = b.taken steps := by
  simp [taken, run, h, Except.toOption]

theorem accepts_taken (b : RegistryBuilder) (steps : List BuildStep) :
    b.Accepts (b.taken steps) (b.run steps).2 := by
  induction steps generalizing b with
  | nil => exact accepts_nil_iff.mpr rfl
  | cons s steps ih =>
    obtain ⟨e, hStep⟩ | ⟨added, after, hStep⟩ := b.step_cases s
    · have hRun : (b.run (s :: steps)).2 = (b.run steps).2 := by rw [run, hStep]
      rw [taken_cons_of_error hStep, hRun]
      exact ih b
    · have hRun : (b.run (s :: steps)).2 = (after.run steps).2 := by rw [run, hStep]
      rw [taken_cons_of_ok hStep, hRun]
      exact accepts_cons_iff.mpr ⟨after, hStep, ih after⟩

example : (empty.taken [.machine "m" ["sse"], .arch (.named "sse"), .machine "m" ["sse"],
    .arch (.named "sse")]).map (·.1) = [.arch (.named "sse"), .machine "m" ["sse"]] := by
  decide +kernel

/-- The machine finds more architectures than before, and those that it asks for unchanged. -/
theorem step_arch_before_machine (h : b.WellFormed) {name : String} {entries : List String}
    {d : ArchDef} {index : Added} (hMachine : b.step (.machine name entries) = (.ok added, middle))
    (hArch : middle.step (.arch d) = (.ok index, last)) :
    ∃ other, b.step (.arch d) = (.ok index, other) ∧
      other.step (.machine name entries) = (.ok added, last) := by
  obtain ⟨new, machines, hNew, rfl, rfl⟩ :=
    (attempt_machine_eq_ok_iff ..).mp (step_eq_ok_iff.mp hMachine)
  obtain ⟨i, archs, hIndex, rfl, rfl⟩ :=
    (attempt_arch_eq_ok_iff ..).mp (step_eq_ok_iff.mp hArch)
  have hLater : archs.Extends b.archs := ArchCatalogue.extends_of_register hIndex
  have hAgain := MachineCatalogue.register_of_extends h.archs (h.archs.register hIndex) hLater hNew
  refine ⟨{ b with archs := archs }, step_eq_ok_iff.mpr ?_, step_eq_ok_iff.mpr ?_⟩
  · exact (attempt_arch_eq_ok_iff ..).mpr ⟨i, archs, hIndex, rfl, rfl⟩
  · exact (attempt_machine_eq_ok_iff ..).mpr ⟨new, machines, hAgain, rfl, rfl⟩

theorem Accepts.archs_before_machine (h : b.WellFormed) {name : String} {entries : List String}
    (hMachine : b.step (.machine name entries) = (.ok added, middle))
    (hKind : ∀ p ∈ l, p.1.isArch = true) (hRest : middle.Accepts l last) :
    ∃ other, b.Accepts l other ∧ other.step (.machine name entries) = (.ok added, last) := by
  induction l generalizing b middle with
  | nil =>
    cases accepts_nil_iff.mp hRest
    exact ⟨b, accepts_nil_iff.mpr rfl, hMachine⟩
  | cons p l ih =>
    obtain ⟨s, index⟩ := p
    obtain ⟨hHead, hTail⟩ := List.forall_mem_cons.mp hKind
    obtain ⟨next, hStep, hNext⟩ := accepts_cons_iff.mp hRest
    cases s with
    | machine n es => cases hHead
    | arch d =>
      obtain ⟨first, hFirst, hSecond⟩ := step_arch_before_machine h hMachine hStep
      have hWell : first.WellFormed := by simpa [hFirst] using h.step (.arch d)
      obtain ⟨other, hArchs, hLast⟩ := ih hWell hSecond hTail hNext
      exact ⟨other, accepts_cons_iff.mpr ⟨first, hFirst, hArchs⟩, hLast⟩

theorem Accepts.inPhases (h : b.WellFormed) (hAll : b.Accepts l last) :
    b.Accepts (inPhases l) last := by
  induction l generalizing b with
  | nil => exact hAll
  | cons p l ih =>
    obtain ⟨s, added⟩ := p
    obtain ⟨middle, hStep, hRest⟩ := accepts_cons_iff.mp hAll
    have hWell : middle.WellFormed := by simpa [hStep] using h.step s
    have hPhases : middle.Accepts (RegistryBuilder.inPhases l) last := ih hWell hRest
    -- the rest of the run is in order, and only a machine has to move, behind its architectures
    cases s with
    | arch d => exact accepts_cons_iff.mpr ⟨middle, hStep, hPhases⟩
    | machine name entries =>
      obtain ⟨next, hArchs, hMachines⟩ := accepts_append_iff.mp hPhases
      obtain ⟨other, hFirst, hMoved⟩ :=
        Accepts.archs_before_machine h hStep (fun p hp => (List.mem_filter.mp hp).2) hArchs
      exact accepts_append_iff.mpr
        ⟨other, hFirst, accepts_cons_iff.mpr ⟨next, hMoved, hMachines⟩⟩

theorem Accepts.runAll (h : b.Accepts l last) :
    (RegistryBuilder.runAll (l.map (·.1))).run b = .ok () last := by
  induction l generalizing b with
  | nil =>
    cases accepts_nil_iff.mp h
    rfl
  | cons p l ih =>
    obtain ⟨s, added⟩ := p
    obtain ⟨middle, hStep, hRest⟩ := accepts_cons_iff.mp h
    exact run_forM_cons_eq_ok_iff.mpr
      ⟨added, middle, step_eq_ok_iff.mp hStep, ih hRest⟩

end Accepted

/-- The accepted steps of a run are accepted again with the same outcomes, and lead to the same
builder, when all architectures come before all machines; so definitions that list them give the
registry of the run. -/
theorem run_taken_in_phases (steps : List BuildStep) :
    let l := empty.taken steps
    let built := (empty.run steps).2
    empty.run ((inPhases l).map (·.1)) = ((inPhases l).map fun p => .ok p.2, built) ∧
      (Definitions.ofSteps (l.map (·.1))).toRegistry = .ok built.finish := by
  intro l built
  have hPhases : empty.Accepts (inPhases l) built :=
    (accepts_taken empty steps).inPhases wellFormed_empty
  refine ⟨hPhases, ?_⟩
  have hSteps : (Definitions.ofSteps (l.map (·.1))).steps = (inPhases l).map (·.1) := by
    rw [Definitions.steps_ofSteps, inPhases, List.map_append, List.filter_map, List.filter_map]
    rfl
  rw [Definitions.toRegistry, hSteps, hPhases.runAll]

end RegistryBuilder

end TargetCatalog
