import Mathlib.Data.List.Basic

/-!
# Programs that ask their surroundings

A program that calls out is a tree: it has returned, or it makes a call and goes on with the
answer, whatever that is.  A call `e` is answered with a value of `R e`.  Nothing is said about
where the answers come from, so a statement about all runs of a program is one about every
behaviour of its surroundings.

* `Program.Runs p tr a`: along the trace `tr` of calls and their answers, `p` returns `a`.
* `Program.runBy oracle p before`: the run in which an oracle answers each call, by what has been
  asked before, with `Program.runs_runBy`: it is one of the runs.
* `Program.runs_pure_iff`, `Program.runs_call_iff`, `Program.runs_bind_iff`: what the runs of a
  program are, by its form; `Program.runs_andThen_iff` for a program that can fail.
-/

universe u v w w'

/-- A program with calls `E`, each answered with a value of `R e`, that returns an `α`. -/
inductive Program (E : Type u) (R : E → Type v) (α : Type w) where
  | pure (a : α)
  | call (e : E) (next : R e → Program E R α)

namespace Program

variable {E : Type u} {R : E → Type v} {α : Type w} {β : Type w'}

/-- A call with its answer. -/
abbrev Event (E : Type u) (R : E → Type v) := Σ e : E, R e

/-- The program goes on with `f` once it has returned. -/
def bind (p : Program E R α) (f : α → Program E R β) : Program E R β :=
  match p with
  | .pure a => f a
  | .call e next => .call e fun r => (next r).bind f

/-- The call alone. -/
def ask (e : E) : Program E R (R e) := .call e .pure

/-- The program returns the value after the calls of the trace. -/
inductive Runs : Program E R α → List (Event E R) → α → Prop where
  | pure (a : α) : Runs (.pure a) [] a
  | call {e : E} {next : R e → Program E R α} {tr : List (Event E R)} {a : α} (r : R e)
      (h : Runs (next r) tr a) : Runs (.call e next) (⟨e, r⟩ :: tr) a

theorem runs_pure_iff {a b : α} {tr : List (Event E R)} :
    Runs (.pure a : Program E R α) tr b ↔ tr = [] ∧ b = a := by
  constructor
  · rintro ⟨⟩
    exact ⟨rfl, rfl⟩
  · rintro ⟨rfl, rfl⟩
    exact .pure _

theorem runs_call_iff {e : E} {next : R e → Program E R α} {tr : List (Event E R)} {a : α} :
    Runs (.call e next) tr a ↔ ∃ r tr', tr = ⟨e, r⟩ :: tr' ∧ Runs (next r) tr' a := by
  constructor
  · rintro ⟨⟩
    exact ⟨_, _, rfl, ‹_›⟩
  · rintro ⟨r, tr', rfl, h⟩
    exact .call r h

/-- A program in two parts is run in two parts. -/
theorem runs_bind_iff {p : Program E R α} {f : α → Program E R β} {tr : List (Event E R)}
    {b : β} : Runs (p.bind f) tr b ↔
      ∃ a tr₁ tr₂, tr = tr₁ ++ tr₂ ∧ Runs p tr₁ a ∧ Runs (f a) tr₂ b := by
  induction p generalizing tr with
  | pure a =>
      constructor
      · intro h
        exact ⟨a, [], tr, rfl, .pure a, h⟩
      · rintro ⟨a', tr₁, tr₂, rfl, h₁, h₂⟩
        obtain ⟨rfl, rfl⟩ := runs_pure_iff.mp h₁
        exact h₂
  | call e next ih =>
      constructor
      · intro h
        obtain ⟨r, tr', rfl, hrest⟩ := runs_call_iff.mp h
        obtain ⟨a, tr₁, tr₂, rfl, h₁, h₂⟩ := (ih r).mp hrest
        exact ⟨a, ⟨e, r⟩ :: tr₁, tr₂, rfl, .call r h₁, h₂⟩
      · rintro ⟨a, tr₁, tr₂, rfl, h₁, h₂⟩
        obtain ⟨r, tr', rfl, hrest⟩ := runs_call_iff.mp h₁
        exact .call r ((ih r).mpr ⟨a, tr', tr₂, rfl, hrest, h₂⟩)

/-- A single call is answered and that is all. -/
theorem runs_ask_iff {e : E} {tr : List (Event E R)} {r : R e} :
    Runs (ask e) tr r ↔ tr = [⟨e, r⟩] := by
  rw [ask, runs_call_iff]
  constructor
  · rintro ⟨r', tr', rfl, h⟩
    obtain ⟨rfl, rfl⟩ := runs_pure_iff.mp h
    rfl
  · rintro rfl
    exact ⟨r, [], rfl, .pure r⟩

/-- The run in which each call is answered by an oracle that sees the calls before it. -/
def runBy (oracle : List (Event E R) → (e : E) → R e) :
    Program E R α → List (Event E R) → List (Event E R) × α
  | .pure a, _ => ([], a)
  | .call e next, before =>
      let r := oracle before e
      let rest := (next r).runBy oracle (before ++ [⟨e, r⟩])
      (⟨e, r⟩ :: rest.1, rest.2)

theorem runs_runBy (oracle : List (Event E R) → (e : E) → R e) (p : Program E R α)
    (before : List (Event E R)) : Runs p (p.runBy oracle before).1 (p.runBy oracle before).2 := by
  induction p generalizing before with
  | pure a => exact .pure a
  | call e next ih => exact .call (oracle before e) (ih _ _)

/-- What is answered in such a run is what the oracle answers. -/
theorem answered_runBy {oracle : List (Event E R) → (e : E) → R e} {p : Program E R α}
    {before : List (Event E R)} {event : Event E R} (h : event ∈ (p.runBy oracle before).1) :
    ∃ seen, event.2 = oracle seen event.1 := by
  induction p generalizing before with
  | pure a => cases h
  | call e next ih =>
      rcases List.mem_cons.mp h with rfl | h
      · exact ⟨before, rfl⟩
      · exact ih _ h

/-! ## Programs that can fail -/

section Except

universe x

variable {ε : Type x}

/-- The program goes on with `f` if it has not failed. -/
def andThen (p : Program E R (Except ε α)) (f : α → Program E R (Except ε β)) :
    Program E R (Except ε β) :=
  p.bind fun
    | .error e => .pure (.error e)
    | .ok a => f a

/-- A run of a program in two parts ends in the first one with an error, or goes through both. -/
theorem runs_andThen_iff {p : Program E R (Except ε α)} {f : α → Program E R (Except ε β)}
    {tr : List (Event E R)} {result : Except ε β} : Runs (p.andThen f) tr result ↔
      (∃ e, Runs p tr (.error e) ∧ result = .error e) ∨
        ∃ a tr₁ tr₂, tr = tr₁ ++ tr₂ ∧ Runs p tr₁ (.ok a) ∧ Runs (f a) tr₂ result := by
  rw [andThen, runs_bind_iff]
  constructor
  · rintro ⟨a, tr₁, tr₂, rfl, h₁, h₂⟩
    cases a with
    | error e =>
        obtain ⟨rfl, rfl⟩ := runs_pure_iff.mp h₂
        exact .inl ⟨e, by rwa [List.append_nil], rfl⟩
    | ok a => exact .inr ⟨a, tr₁, tr₂, rfl, h₁, h₂⟩
  · rintro (⟨e, h, rfl⟩ | ⟨a, tr₁, tr₂, rfl, h₁, h₂⟩)
    · exact ⟨.error e, tr, [], (List.append_nil tr).symm, h, .pure _⟩
    · exact ⟨.ok a, tr₁, tr₂, rfl, h₁, h₂⟩

end Except

end Program
