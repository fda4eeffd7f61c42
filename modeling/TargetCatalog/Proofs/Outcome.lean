/-!
# Outcomes

When a computation that may fail succeeds, in terms of its parts, with and without a state; and when
a run of steps succeeds of which each one appends names that must not come twice.
-/

namespace TargetCatalog

variable {ε α β σ δ : Type}

@[simp] theorem bind_eq_ok_iff {x : Except ε α} {f : α → Except ε β} {b : β} :
    x >>= f = .ok b ↔ ∃ a, x = .ok a ∧ f a = .ok b := by
  cases x with
  | error e => simp [bind, Except.bind]
  | ok a => simp [bind, Except.bind]

@[simp] theorem map_eq_ok_iff {x : Except ε α} {f : α → β} {b : β} :
    x.map f = .ok b ↔ ∃ a, x = .ok a ∧ f a = b := by
  cases x with
  | error e => simp [Except.map]
  | ok a => simp [Except.map]

@[simp] theorem pure_eq_ok_iff {a b : α} : (pure a : Except ε α) = .ok b ↔ a = b := by
  simp [pure, Except.pure]

theorem toOption_eq_some_iff {x : Except ε α} {a : α} : x.toOption = some a ↔ x = .ok a := by
  cases x with
  | error e => simp [Except.toOption]
  | ok b => simp [Except.toOption]

theorem run_bind_eq_ok_iff {x : EStateM ε σ α} {f : α → EStateM ε σ β} {b : β} {s t : σ} :
    (x >>= f).run s = .ok b t ↔ ∃ a u, x.run s = .ok a u ∧ (f a).run u = .ok b t := by
  rw [EStateM.run_bind]
  cases x.run s with
  | error e u => simp
  | ok a u =>
    constructor
    · intro h
      exact ⟨a, u, rfl, h⟩
    · rintro ⟨_, _, hEq, h⟩
      cases hEq
      exact h

theorem run_discard_eq_ok_iff {x : EStateM ε σ α} {s t : σ} :
    (discard x).run s = .ok () t ↔ ∃ a, x.run s = .ok a t := by
  rw [Functor.discard, map_const, Function.comp_apply, map_eq_pure_bind, run_bind_eq_ok_iff]
  simp

@[simp] theorem run_ofExcept (x : Except ε α) (s : σ) :
    (MonadExcept.ofExcept x : EStateM ε σ α).run s =
      match x with
      | .ok a => .ok a s
      | .error e => .error e s := by
  cases x <;> rfl

section Runs

variable {step : δ → EStateM ε σ α}

theorem run_forM_cons_eq_ok_iff {d : δ} {ds : List δ} {s t : σ} :
    ((d :: ds).forM fun d => discard (step d)).run s = .ok () t ↔
      ∃ a middle, (step d).run s = .ok a middle ∧
        (ds.forM fun d => discard (step d)).run middle = .ok () t := by
  rw [List.forM_eq_forM, List.forM_cons, run_bind_eq_ok_iff]
  constructor
  · rintro ⟨⟨⟩, middle, hStep, hRest⟩
    obtain ⟨a, hStep⟩ := run_discard_eq_ok_iff.mp hStep
    exact ⟨a, middle, hStep, hRest⟩
  · rintro ⟨a, middle, hStep, hRest⟩
    exact ⟨⟨⟩, middle, run_discard_eq_ok_iff.mpr ⟨a, hStep⟩, hRest⟩

/-- Where each step appends entries, a run appends those of all its steps. -/
theorem forM_eq_ok_append {ι : Type} (Inv : σ → Prop) (entries : σ → List ι) {new : δ → List ι}
    (next : ∀ s d a t, Inv s → (step d).run s = .ok a t →
      Inv t ∧ entries t = entries s ++ new d)
    {s t : σ} (hs : Inv s) {ds : List δ}
    (hRun : (ds.forM fun d => discard (step d)).run s = .ok () t) :
    Inv t ∧ entries t = entries s ++ ds.flatMap new := by
  induction ds generalizing s with
  | nil =>
    cases hRun
    exact ⟨hs, by simp⟩
  | cons d ds ih =>
    obtain ⟨a, middle, hStep, hRest⟩ := run_forM_cons_eq_ok_iff.mp hRun
    obtain ⟨hMiddle, hEntries⟩ := next s d a middle hs hStep
    obtain ⟨ht, hAll⟩ := ih hMiddle hRest
    exact ⟨ht, by rw [hAll, hEntries, List.flatMap_cons, List.append_assoc]⟩

end Runs

/-- Each step appends names to those of the state, and fails only if it is not in order by itself or
if a name would come twice. -/
structure AppendsNames (step : δ → EStateM ε σ α) (Inv : σ → Prop) (names : σ → List String)
    (new : δ → List String) (Good : δ → Prop) : Prop where
  nodup : ∀ s, Inv s → (names s).Nodup
  succeeds : ∀ s d, Inv s →
    ((∃ a t, (step d).run s = .ok a t) ↔ Good d ∧ (names s ++ new d).Nodup)
  next : ∀ s d a t, Inv s → (step d).run s = .ok a t → Inv t ∧ names t = names s ++ new d

namespace AppendsNames

variable {step : δ → EStateM ε σ α} {Inv : σ → Prop} {names : σ → List String}
  {new : δ → List String} {Good : δ → Prop}

theorem forM_eq_ok (h : AppendsNames step Inv names new Good) {s t : σ} (hs : Inv s)
    {ds : List δ} (hRun : (ds.forM fun d => discard (step d)).run s = .ok () t) :
    Inv t ∧ names t = names s ++ ds.flatMap new :=
  forM_eq_ok_append Inv names h.next hs hRun

theorem exists_forM_iff (h : AppendsNames step Inv names new Good) {s : σ} (hs : Inv s)
    (ds : List δ) :
    (∃ t, (ds.forM fun d => discard (step d)).run s = .ok () t) ↔
      (∀ d ∈ ds, Good d) ∧ (names s ++ ds.flatMap new).Nodup := by
  induction ds generalizing s with
  | nil =>
    have hNil : ∃ t, ([].forM fun d => discard (step d)).run s = .ok () t := ⟨s, rfl⟩
    simpa [hNil] using h.nodup s hs
  | cons d ds ih =>
    simp only [run_forM_cons_eq_ok_iff]
    rw [List.forall_mem_cons, List.flatMap_cons, ← List.append_assoc]
    constructor
    · rintro ⟨t, a, middle, hStep, hRest⟩
      obtain ⟨hMiddle, hNames⟩ := h.next s d a middle hs hStep
      obtain ⟨hGood, hNodup⟩ := (ih hMiddle).mp ⟨t, hRest⟩
      exact ⟨⟨((h.succeeds s d hs).mp ⟨a, middle, hStep⟩).1, hGood⟩, hNames ▸ hNodup⟩
    · rintro ⟨⟨hHead, hGood⟩, hNodup⟩
      obtain ⟨a, middle, hStep⟩ :=
        (h.succeeds s d hs).mpr ⟨hHead, (List.nodup_append.mp hNodup).1⟩
      obtain ⟨hMiddle, hNames⟩ := h.next s d a middle hs hStep
      obtain ⟨t, hRest⟩ := (ih hMiddle).mpr ⟨hGood, hNames ▸ hNodup⟩
      exact ⟨t, a, middle, hStep, hRest⟩

end AppendsNames

end TargetCatalog
