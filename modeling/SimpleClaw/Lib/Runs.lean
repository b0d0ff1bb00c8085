import Mathlib.Data.List.Basic

/-!
# Runs of a labelled step function

A component that takes one atomic step at a time is a partial function
`step : σ → α → Option σ`: the label says which step is attempted, and `none`
that the state does not allow it.  Everything here is about an arbitrary such
function, over arbitrary states and labels.

* `Run step s tr`: the trace `tr` lists the labels taken from `s`, each with the
  state it leads to.
* `Run.StepsMeet C s tr`: every step of the trace is taken from a state, and with
  a label, satisfying the guard `C`.
* `Run.invariant_of_stepsMeet`: what the guarded steps preserve holds in every
  state of a guarded run.
* `Run.forall_iff_stepsMeet`: when, on states satisfying an invariant, a property
  survives a step exactly if the guard holds there, the property holds in every
  state of a run exactly if every step of the run meets the guard.
* `Run.final s tr`: the state a trace from `s` leads to.
* `Run.related_final`: what a transitive relation says of every step it says of the run.
* `exec step s as`: the run along a given list of labels, computed.
-/

namespace Transition

universe u v

variable {σ : Type u} {α : Type v}

/-- The trace of a run from a state: every label taken, with the state it leads to. -/
inductive Run (step : σ → α → Option σ) : σ → List (α × σ) → Prop where
  | nil (s : σ) : Run step s []
  | cons {s s' : σ} {a : α} {tr : List (α × σ)} :
      step s a = some s' → Run step s' tr → Run step s ((a, s') :: tr)

/-- Every step of the trace is taken under the guard `C`. -/
def Run.StepsMeet (C : σ → α → Prop) : σ → List (α × σ) → Prop
  | _, [] => True
  | s, (a, s') :: tr => C s a ∧ Run.StepsMeet C s' tr

@[simp] theorem Run.stepsMeet_nil (C : σ → α → Prop) (s : σ) : Run.StepsMeet C s [] := trivial

@[simp] theorem Run.stepsMeet_cons (C : σ → α → Prop) (s s' : σ) (a : α) (tr : List (α × σ)) :
    Run.StepsMeet C s ((a, s') :: tr) ↔ C s a ∧ Run.StepsMeet C s' tr := Iff.rfl

/-- Every run meets the guard that asks for nothing. -/
theorem Run.stepsMeet_true (s : σ) (tr : List (α × σ)) :
    Run.StepsMeet (fun _ _ => True) s tr := by
  induction tr generalizing s with
  | nil => trivial
  | cons x tr ih => exact ⟨trivial, ih x.2⟩

theorem Run.stepsMeet_and {C D : σ → α → Prop} {s : σ} {tr : List (α × σ)} :
    Run.StepsMeet (fun s a => C s a ∧ D s a) s tr ↔
      Run.StepsMeet C s tr ∧ Run.StepsMeet D s tr := by
  induction tr generalizing s with
  | nil => exact ⟨fun _ => ⟨trivial, trivial⟩, fun _ => trivial⟩
  | cons x tr ih =>
      rw [Run.stepsMeet_cons, Run.stepsMeet_cons, Run.stepsMeet_cons, ih]
      exact and_and_and_comm

/-- The state a trace leads to. -/
def Run.final : σ → List (α × σ) → σ
  | s, [] => s
  | _, (_, s') :: tr => Run.final s' tr

@[simp] theorem Run.final_nil (s : σ) : Run.final s ([] : List (α × σ)) = s := rfl

@[simp] theorem Run.final_cons (s s' : σ) (a : α) (tr : List (α × σ)) :
    Run.final s ((a, s') :: tr) = Run.final s' tr := rfl

/-! ## Induction along a run -/

section Induction

variable {step : σ → α → Option σ} {C : σ → α → Prop} {J P : σ → Prop}

/-- **The invariant rule under a guard.**  What holds at the start and survives every
guarded step holds in every state of a run all of whose steps are guarded. -/
theorem Run.invariant_of_stepsMeet
    (hstep : ∀ s a s', J s → C s a → step s a = some s' → J s')
    {s : σ} {tr : List (α × σ)} (hrun : Run step s tr) (hs : J s)
    (hC : Run.StepsMeet C s tr) : ∀ x ∈ tr, J x.2 := by
  induction hrun with
  | nil s => intro x hx; exact absurd hx (by simp)
  | @cons s s' a tr hst _ ih =>
      have hs' : J s' := hstep s a s' hs hC.1 hst
      intro x hx
      rcases List.mem_cons.mp hx with rfl | hx
      · exact hs'
      · exact ih hs' hC.2 x hx

/-- **The invariant rule.**  What holds at the start and survives every step holds in
every state of a run. -/
theorem Run.invariant (hstep : ∀ s a s', J s → step s a = some s' → J s')
    {s : σ} {tr : List (α × σ)} (hrun : Run step s tr) (hs : J s) : ∀ x ∈ tr, J x.2 := by
  exact Run.invariant_of_stepsMeet (C := fun _ _ => True)
    (fun s a s' hJ _ hst => hstep s a s' hJ hst) hrun hs (Run.stepsMeet_true s tr)

/-- What holds at the start and survives every step holds where the run ends. -/
theorem Run.invariant_final (hstep : ∀ s a s', J s → step s a = some s' → J s')
    {s : σ} {tr : List (α × σ)} (hrun : Run step s tr) (hs : J s) : J (Run.final s tr) := by
  induction hrun with
  | nil s => exact hs
  | @cons s s' a tr hst _ ih => exact ih (hstep s a s' hs hst)

/-- **The rule for two states of a run.**  A transitive relation that holds along every step from a
state satisfying the invariant holds between the start and the end of a run. -/
theorem Run.related_final {R : σ → σ → Prop} (hrefl : ∀ s, R s s)
    (htrans : ∀ s₁ s₂ s₃, R s₁ s₂ → R s₂ s₃ → R s₁ s₃)
    (hJ : ∀ s a s', J s → step s a = some s' → J s')
    (hstep : ∀ s a s', J s → step s a = some s' → R s s')
    {s : σ} {tr : List (α × σ)} (hrun : Run step s tr) (hs : J s) : R s (Run.final s tr) := by
  induction hrun with
  | nil s => exact hrefl s
  | @cons s s' a tr hst _ ih =>
      exact htrans s s' _ (hstep s a s' hs hst) (ih (hJ s a s' hs hst))

/-- **A property of all states against a guard on all steps**, in a run under an assumption `A`.
The induction carries the invariant `J`; as soon as one step breaks the guard, the state it
reaches breaks `P`, and until then `P` is there to feed the next step. -/
theorem Run.forall_iff_stepsMeet_of_stepsMeet {A : σ → α → Prop}
    (hJ : ∀ s a s', J s → A s a → step s a = some s' → J s')
    (hP : ∀ s a s', J s → A s a → P s → step s a = some s' → (P s' ↔ C s a))
    {s : σ} {tr : List (α × σ)} (hrun : Run step s tr) (hJs : J s) (hPs : P s)
    (hA : Run.StepsMeet A s tr) : (∀ x ∈ tr, P x.2) ↔ Run.StepsMeet C s tr := by
  induction hrun with
  | nil s => simp
  | @cons s s' a tr hst _ ih =>
      have hiff : P s' ↔ C s a := hP s a s' hJs hA.1 hPs hst
      have hJs' : J s' := hJ s a s' hJs hA.1 hst
      rw [List.forall_mem_cons, Run.stepsMeet_cons]
      constructor
      · rintro ⟨hs', htr⟩
        exact ⟨hiff.mp hs', (ih hJs' hs' hA.2).mp htr⟩
      · rintro ⟨hC, htr⟩
        have hs' : P s' := hiff.mpr hC
        exact ⟨hs', (ih hJs' hs' hA.2).mpr htr⟩

/-- **A property of all states against a guard on all steps**, in any run. -/
theorem Run.forall_iff_stepsMeet
    (hJ : ∀ s a s', J s → step s a = some s' → J s')
    (hP : ∀ s a s', J s → P s → step s a = some s' → (P s' ↔ C s a))
    {s : σ} {tr : List (α × σ)} (hrun : Run step s tr) (hJs : J s) (hPs : P s) :
    (∀ x ∈ tr, P x.2) ↔ Run.StepsMeet C s tr :=
  Run.forall_iff_stepsMeet_of_stepsMeet (fun s a s' hJs _ hst => hJ s a s' hJs hst)
    (fun s a s' hJs _ hPs hst => hP s a s' hJs hPs hst) hrun hJs hPs (Run.stepsMeet_true s tr)

end Induction

/-! ## Computing a run -/

/-- The trace along a list of labels, if every one of them is allowed in turn. -/
def exec (step : σ → α → Option σ) : σ → List α → Option (List (α × σ))
  | _, [] => some []
  | s, a :: as =>
      match step s a with
      | none => none
      | some s' => (exec step s' as).map fun tr => (a, s') :: tr

theorem exec_cons {step : σ → α → Option σ} {s s' : σ} {a : α} {as : List α} {tr : List (α × σ)}
    (hstep : step s a = some s') (hexec : exec step s' as = some tr) :
    exec step s (a :: as) = some ((a, s') :: tr) := by
  simp only [exec, hstep, hexec, Option.map_some]

/-- What `exec` computes is a run. -/
theorem run_of_exec {step : σ → α → Option σ} :
    ∀ {s : σ} {as : List α} {tr : List (α × σ)}, exec step s as = some tr → Run step s tr
  | s, [], tr, h => by
      rw [exec] at h
      rw [← Option.some.inj h]
      exact Run.nil s
  | s, a :: as, tr, h => by
      rw [exec] at h
      cases hst : step s a with
      | none => simp [hst] at h
      | some s' =>
          simp only [hst, Option.map_eq_some_iff] at h
          obtain ⟨tr', htr', rfl⟩ := h
          exact Run.cons hst (run_of_exec htr')

/-- A guard that all the labels meet in any state is met along the run. -/
theorem Run.stepsMeet_of_exec {step : σ → α → Option σ} {C : σ → α → Prop} :
    ∀ {s : σ} {as : List α} {tr : List (α × σ)}, exec step s as = some tr →
      (∀ a ∈ as, ∀ s, C s a) → Run.StepsMeet C s tr
  | s, [], tr, h, _ => by
      rw [exec] at h
      rw [← Option.some.inj h]
      trivial
  | s, a :: as, tr, h, hC => by
      rw [exec] at h
      cases hst : step s a with
      | none => simp [hst] at h
      | some s' =>
          simp only [hst, Option.map_eq_some_iff] at h
          obtain ⟨tr', htr', rfl⟩ := h
          exact ⟨hC a List.mem_cons_self s,
            stepsMeet_of_exec htr' fun a' ha' => hC a' (List.mem_cons_of_mem a ha')⟩

/-- A test that some state along a computed run passes exhibits a run and such a state. -/
theorem exists_run_of_exec (step : σ → α → Option σ) (s : σ) (as : List α) (p : σ → Bool)
    (h : (exec step s as).map (fun tr => tr.any fun x => p x.2) = some true) :
    ∃ tr, Run step s tr ∧ ∃ x ∈ tr, p x.2 = true := by
  rw [Option.map_eq_some_iff] at h
  obtain ⟨tr, htr, hany⟩ := h
  exact ⟨tr, run_of_exec htr, List.any_eq_true.mp hany⟩

/-- Every step of the trace passes the test. -/
def stepsPass (c : σ → α → Bool) : σ → List (α × σ) → Bool
  | _, [] => true
  | s, (a, s') :: tr => c s a && stepsPass c s' tr

theorem Run.stepsMeet_of_stepsPass {C : σ → α → Prop} {c : σ → α → Bool}
    (hc : ∀ s a, c s a = true → C s a) :
    ∀ {s : σ} {tr : List (α × σ)}, stepsPass c s tr = true → Run.StepsMeet C s tr
  | _, [], _ => trivial
  | s, (a, s') :: tr, h => by
      obtain ⟨ha, htr⟩ := Bool.and_eq_true_iff.mp h
      exact ⟨hc s a ha, stepsMeet_of_stepsPass hc htr⟩

/-- A computed run whose steps all pass a test for the guard is a guarded run. -/
theorem exists_guarded_run_of_exec (step : σ → α → Option σ) (s : σ) (as : List α)
    {C : σ → α → Prop} {c : σ → α → Bool} (hc : ∀ s a, c s a = true → C s a)
    (h : (exec step s as).map (stepsPass c s) = some true) :
    ∃ tr, exec step s as = some tr ∧ Run step s tr ∧ Run.StepsMeet C s tr := by
  rw [Option.map_eq_some_iff] at h
  obtain ⟨tr, htr, hpass⟩ := h
  exact ⟨tr, htr, run_of_exec htr, Run.stepsMeet_of_stepsPass hc hpass⟩

end Transition
