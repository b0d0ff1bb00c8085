import Mathlib.Data.List.Basic

/-!
# The first failure

A computation with errors that goes through a list of things, each of which can fail, and that
comes to a known value if none does.

* `Visits failure p things a`: `p` fails with the first failure among the things, and without one it
  gives `a`.
* `Visits.bind`, `Visits.map`, `Visits.mapM`: how computations compose.
-/

namespace FirstFailure

universe u

variable {ρ : Type*} {ε α β : Type u}

/-- The error of a computation that fails. -/
def errorOf : Except ε α → Option ε
  | .error e => some e
  | .ok _ => none

/-- The outcome is the first failure there is, or the value. -/
def Visits (failure : ρ → Option ε) (p : Except ε α) (things : List ρ) (a : α) : Prop :=
  p = match things.findSome? failure with
    | some e => .error e
    | none => .ok a

variable {failure : ρ → Option ε} {p : Except ε α} {things : List ρ} {a : α}

theorem visits_ok (failure : ρ → Option ε) (a : α) : Visits failure (.ok a) [] a := rfl

theorem visits_single {thing : ρ} (hfailure : failure thing = errorOf p)
    (hvalue : ∀ b, p = .ok b → b = a) : Visits failure p [thing] a := by
  rw [Visits, List.findSome?_singleton, hfailure]
  match p, hvalue with
  | .error e, _ => rfl
  | .ok b, hvalue => exact congrArg Except.ok (hvalue b rfl)

theorem Visits.bind {f : α → Except ε β} {more : List ρ} {b : β} (h : Visits failure p things a)
    (hf : Visits failure (f a) more b) : Visits failure (p >>= f) (things ++ more) b := by
  rw [Visits] at h hf ⊢
  rw [h, List.findSome?_append]
  cases things.findSome? failure with
  | some e => rfl
  | none => exact hf

theorem Visits.map (h : Visits failure p things a) (f : α → β) :
    Visits failure (p.map f) things (f a) := by
  rw [Visits] at h ⊢
  rw [h]
  cases things.findSome? failure with
  | some e => rfl
  | none => rfl

theorem Visits.bind_pure (h : Visits failure p things a) (f : α → β) :
    Visits failure (p >>= fun b => pure (f b)) things (f a) := by
  have hbind := h.bind (f := fun b => pure (f b)) (visits_ok failure (f a))
  rwa [List.append_nil] at hbind

/-- One after the other. -/
theorem Visits.mapM {δ : Type*} {f : δ → Except ε β} {g : δ → β} {of : δ → List ρ} {l : List δ}
    (h : ∀ d ∈ l, Visits failure (f d) (of d) (g d)) :
    Visits failure (l.mapM f) (l.flatMap of) (l.map g) := by
  induction l with
  | nil => exact visits_ok failure []
  | cons d l ih =>
      rw [List.mapM_cons, List.flatMap_cons, List.map_cons]
      have hd := h d List.mem_cons_self
      have hl := ih fun d' hd' => h d' (List.mem_cons_of_mem d hd')
      exact hd.bind (hl.bind_pure _)

/-- It gives a value exactly if nothing fails. -/
theorem Visits.eq_ok_iff (h : Visits failure p things a) {b : α} :
    p = .ok b ↔ (∀ thing ∈ things, failure thing = none) ∧ b = a := by
  rw [Visits] at h
  rw [h, ← List.findSome?_eq_none_iff]
  cases things.findSome? failure with
  | some e =>
      refine iff_of_false (fun heq => by cases heq) fun hnone => ?_
      cases hnone.1
  | none => exact ⟨fun heq => ⟨rfl, (Except.ok.inj heq).symm⟩, fun hb => by rw [hb.2]⟩

/-- Another computation with the same error. -/
theorem Visits.of_error {e : ε} {b : β} (h : Visits failure (.error e : Except ε α) things a) :
    Visits failure (.error e : Except ε β) things b := by
  rw [Visits] at h ⊢
  cases hfirst : things.findSome? failure with
  | some e' =>
      rw [hfirst] at h
      exact congrArg Except.error (Except.error.inj h)
  | none =>
      rw [hfirst] at h
      cases h

theorem visits_of_forall_eq_none (hnone : ∀ thing ∈ things, failure thing = none)
    (hp : p = .ok a) : Visits failure p things a := by
  rw [Visits, List.findSome?_eq_none_iff.mpr hnone, hp]

end FirstFailure
