import TargetCatalog.Proofs.Registry.Growth

/-!
# Positions handed out

A catalogue of architectures hands out positions, for what it registers and for what it is asked to
look up. They are those of the declarations that it has accepted, and they say nothing of the
catalogue that they come from: another catalogue refuses one only if it has not come so far itself.
-/

namespace TargetCatalog.Session

/-- The declaration that a step adds to the catalogue `k` of architectures. -/
def acceptedAt (s : Session) (k : Nat) : SessionStep → Option ArchDef
  | .arch n d => if n = k ∧ (s.step (.arch n d)).1.isOk then some d else none
  | .machine .. => none

/-- The declarations that the catalogue `k` of architectures accepts in a run, in order. -/
def accepted (s : Session) (k : Nat) : List SessionStep → List ArchDef
  | [] => []
  | x :: rest => (s.acceptedAt k x).toList ++ (s.step x).2.accepted k rest

/-- The catalogue `k` of architectures has returned the position at some point of a run: for a
declaration that it has registered, or for a name that it has found. -/
inductive Issued (k : Nat) : List SessionStep → ArchIndex → Prop
  | registration {past future : List SessionStep} {d : ArchDef} {i : ArchIndex}
      (h : ((empty.run past).step (.arch k d)).1 = .ok (.arch i)) :
      Issued k (past ++ .arch k d :: future) i
  | lookup {past future : List SessionStep} {name : String} {i : ArchIndex}
      (h : ((empty.run past).archs k).lookup name = some i) :
      Issued k (past ++ future) i

theorem acceptedAt_of_error {s : Session} {x : SessionStep} {e : RegistryError}
    (h : s.step x = (.error e, s)) (k : Nat) : s.acceptedAt k x = none := by
  cases x with
  | arch n d => simp [acceptedAt, h, Except.isOk, Except.toBool]
  | machine => rfl

theorem acceptedAt_of_ok {s after : Session} {n : Nat} {d : ArchDef} {added : Added}
    (h : s.step (.arch n d) = (.ok added, after)) (k : Nat) :
    s.acceptedAt k (.arch n d) = if n = k then some d else none := by
  simp [acceptedAt, h, Except.isOk, Except.toBool]

/-- A step appends to a catalogue what the declaration that it accepts, if any, describes. -/
theorem archs_step (s : Session) (k : Nat) (x : SessionStep) :
    ((s.step x).2.archs k).archs.map Except.ok =
      (s.archs k).archs.map Except.ok ++ (s.acceptedAt k x).toList.map ArchDef.validate := by
  obtain ⟨e, hStep⟩ | ⟨n, d, i, archs, rfl, hRegister, hStep⟩ |
    ⟨n, a, name, entries, added, machines, rfl, -, hStep⟩ := s.step_cases x
  · simp [hStep, acceptedAt_of_error hStep]
  · obtain ⟨arch, hValid, -, -, rfl⟩ := (ArchCatalogue.register_eq_ok_iff ..).mp hRegister
    rw [hStep, acceptedAt_of_ok hStep, setArchs_archs]
    by_cases hSame : n = k
    · subst n
      simp [ArchCatalogue.push, hValid]
    · simp [hSame, Ne.symm hSame]
  · simp [hStep, acceptedAt, setMachines]

theorem archs_run (s : Session) (k : Nat) (steps : List SessionStep) :
    ((s.run steps).archs k).archs.map Except.ok =
      (s.archs k).archs.map Except.ok ++ (s.accepted k steps).map ArchDef.validate := by
  induction steps generalizing s with
  | nil => simp [run, accepted]
  | cons x steps ih =>
    rw [accepted, List.map_append, ← List.append_assoc, ← archs_step]
    exact ih (s.step x).2

example : empty.accepted 0 [.arch 0 (.named "sse"), .arch 1 (.named "neon"),
    .machine 0 0 "m" ["sse"], .arch 0 (.named " sse "), .arch 0 (.named "avx")] =
      [.named "sse", .named "avx"] := by
  decide +kernel

section Run

variable (steps : List SessionStep) (k : Nat)

theorem archs_run_empty : ((empty.run steps).archs k).archs.map Except.ok =
    (empty.accepted k steps).map ArchDef.validate :=
  archs_run empty k steps

theorem size_run : ((empty.run steps).archs k).size = (empty.accepted k steps).length := by
  simpa [ArchCatalogue.size] using congrArg List.length (archs_run_empty steps k)

/-- What a catalogue holds at a position is what the declaration that it has accepted there
describes. -/
theorem get?_run_eq_some_iff (i : ArchIndex) (a : Architecture) :
    ((empty.run steps).archs k).get? i = some a ↔
      ∃ d, (empty.accepted k steps)[i.position]? = some d ∧ d.validate = .ok a := by
  have hSame := congrArg (·[i.position]?) (archs_run_empty steps k)
  simp only [List.getElem?_map] at hSame
  rw [← Option.map_eq_some_iff, ← hSame, ArchCatalogue.get?]
  simp

theorem get?_run_eq_none_iff (i : ArchIndex) : ((empty.run steps).archs k).get? i = none ↔
    (empty.accepted k steps).length ≤ i.position := by
  rw [← size_run, ArchCatalogue.get?, List.getElem?_eq_none_iff, ArchCatalogue.size]

end Run

section Issued

variable {steps : List SessionStep} {k : Nat} {i : ArchIndex}

/-- A position that has been returned keeps its architecture to the end of the run. -/
theorem Issued.exists_get? (h : Issued k steps i) :
    ∃ a, ((empty.run steps).archs k).get? i = some a := by
  cases h with
  | @registration past future d _ h =>
    obtain ⟨a, -, hGet⟩ := get?_of_step_arch h (extends_run _ future)
    exact ⟨a, by rwa [run_append]⟩
  | @lookup past future name _ h =>
    have hPast := (wellFormed_empty.run past).archs k
    obtain ⟨a, hGet, -⟩ := hPast.exists_get?_of_lookup h
    exact ⟨a, by rw [run_append, ((extends_run _ future).archs k).get?_eq_some hGet]⟩

/-- The positions that a catalogue has returned are those of what it has accepted. -/
theorem issued_iff : Issued k steps i ↔ i.position < (empty.accepted k steps).length := by
  rw [← not_le, ← get?_run_eq_none_iff]
  constructor
  · intro h hNone
    obtain ⟨a, hGet⟩ := h.exists_get?
    rw [hNone] at hGet
    cases hGet
  · intro h
    obtain ⟨a, hGet⟩ := Option.ne_none_iff_exists'.mp h
    -- whatever has been asked before, at the end of the run the name of `a` finds the position
    have hFound := ((wellFormed_empty.run steps).archs k).lookup_of_get? hGet
    have hIssued : Issued k (steps ++ []) i := .lookup hFound
    rwa [List.append_nil] at hIssued

/-- A position from one catalogue is refused by another exactly when that one has accepted no
more declarations than the position counts, so that it has not returned it itself. Otherwise it
gives what the declaration that it has accepted there describes, and this has the name that was
meant exactly when the name leads to the same position in both. -/
theorem get?_of_issued_elsewhere (h : Issued k steps i) (others : List SessionStep) (n : Nat) :
    let own := (empty.run steps).archs k
    let other := (empty.run others).archs n
    ∃ d a, (empty.accepted k steps)[i.position]? = some d ∧ d.validate = .ok a ∧
      own.get? i = some a ∧
      (other.get? i = none ↔ (empty.accepted n others).length ≤ i.position) ∧
      (other.get? i = none ↔ ¬ Issued n others i) ∧
      ∀ b, other.get? i = some b →
        (∃ e, (empty.accepted n others)[i.position]? = some e ∧ e.validate = .ok b) ∧
          (b.name = a.name ↔ other.lookup a.name = some i) := by
  intro own other
  have hOther : other.WellFormed := (wellFormed_empty.run others).archs n
  obtain ⟨a, hGet⟩ := h.exists_get?
  obtain ⟨d, hAccepted, hValid⟩ := (get?_run_eq_some_iff steps k i a).mp hGet
  refine ⟨d, a, hAccepted, hValid, hGet, get?_run_eq_none_iff others n i, ?_, ?_⟩
  · rw [issued_iff, not_lt]
    exact get?_run_eq_none_iff others n i
  · intro b hb
    refine ⟨(get?_run_eq_some_iff others n i b).mp hb, ?_⟩
    rw [hOther.lookup_eq_some_iff, hb, Option.map_some, Option.some.injEq]

end Issued

/-- The second position of one catalogue is refused by another one that has only a first. -/
theorem get?_of_issued_elsewhere_of_shorter :
    let past : List SessionStep := [.arch 0 (.named "generic")]
    let future : List SessionStep := [.arch 1 (.named " generic "), .arch 1 (.named "generic")]
    let steps := past ++ .arch 0 (.named "sse") :: future
    ((empty.run past).step (.arch 0 (.named "sse"))).1 = .ok (.arch ⟨1⟩) ∧
      ((empty.run steps).archs 1).get? ⟨1⟩ = none := by
  intro past future steps
  have hReturned : ((empty.run past).step (.arch 0 (.named "sse"))).1 = .ok (.arch ⟨1⟩) := by
    decide +kernel
  have hIssued : Issued 0 steps ⟨1⟩ := .registration hReturned
  obtain ⟨-, -, -, -, -, hRefused, -⟩ := get?_of_issued_elsewhere hIssued steps 1
  exact ⟨hReturned, hRefused.mpr (by decide +kernel)⟩

/-- The first position of one catalogue is not refused by another: it leads to an architecture that
has nothing to do with the one it was returned for. -/
theorem get?_of_first_position_elsewhere :
    let steps : List SessionStep := [.arch 0 (.named "sse"), .arch 1 (.named "neon")]
    let own := (empty.run steps).archs 0
    let other := (empty.run steps).archs 1
    Issued 0 steps ⟨0⟩ ∧ other.get? ⟨0⟩ ≠ none ∧
      (own.get? ⟨0⟩).map (·.name) = some "sse" ∧ (other.get? ⟨0⟩).map (·.name) = some "neon" := by
  intro steps own other
  have hReturned : (empty.step (.arch 0 (.named "sse"))).1 = .ok (.arch ⟨0⟩) := by decide +kernel
  have hIssued : Issued 0 ([] ++ .arch 0 (.named "sse") :: [.arch 1 (.named "neon")]) ⟨0⟩ :=
    .registration hReturned
  exact ⟨hIssued, by decide +kernel, by decide +kernel, by decide +kernel⟩

end TargetCatalog.Session
