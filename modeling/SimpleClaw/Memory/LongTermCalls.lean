import Mathlib.Logic.Function.Basic
import SimpleClaw.Lib.Runs
import SimpleClaw.Memory.LongTerm

/-!
# Calls on long-term memory

Any number of calls of `memorize` and `semantic_forget_long_term` run at a time.  A call goes on
one unit at a time: a read, an embedding, a transaction, or a statement that commits by itself;
between two units the other calls go on.  Every unit may fail, which ends the call.

* `LongTermCall`: how far a call has come, with what it has read.
* `LongTermWorld.step`: a call begins, or goes on by one unit.
* `forall_db_iff_stepsMeet`: what the units do to the tables, over whole runs.

Of the fields of `LongTermWorld`, the last three are not part of the program: they say which write
of a fact was the last one on its row, and how many writes there had been when a call made its
duplicate check.
-/

namespace SimpleClaw
namespace Memory

/-- A call and the unit that comes next in it. -/
inductive LongTermCall (E F : Type) where
  /-- reads whether there is the fact already -/
  | checking (req : MemorizeRequest)
  /-- embeds the fact -/
  | embedding (req : MemorizeRequest)
  /-- reads which fact is to be replaced -/
  | looking (req : MemorizeRequest) (blob : E)
  /-- replaces the fact, in a transaction -/
  | superseding (req : MemorizeRequest) (blob : E) (id : Int)
  /-- inserts the fact -/
  | inserting (req : MemorizeRequest) (blob : E)
  /-- inserts the vector of the fact -/
  | indexing (id : Int) (blob : E)
  /-- embeds the query, and reads the filter on kinds -/
  | recalling (req : ForgetRequest F)
  /-- reads which facts are to be forgotten -/
  | searching (req : ForgetRequest F) (kind : Option Text) (query : E)
  /-- deletes the facts, in a transaction -/
  | deleting (ids : List Int)

/-- The next unit of the call writes no table. -/
def LongTermCall.readsOnly {E F : Type} : LongTermCall E F → Bool
  | .checking _ | .embedding _ | .looking _ _ | .recalling _ | .searching _ _ _ => true
  | .superseding _ _ _ | .inserting _ _ | .indexing _ _ | .deleting _ => false

inductive LongTermAction (F : Type) where
  | memorize (call : Nat) (session content kind : Text) (importance : Nat) (now : Int)
  | forget (call : Nat) (query : Text) (similarityThreshold : F) (maxMatches : Nat)
      (kindFilter : Option Text) (commit : Bool)
  | proceed (call : Nat) (fails : Bool)

structure LongTermWorld (E F : Type) where
  db : LongTermDb E
  calls : Nat → Option (LongTermCall E F)
  writes : Nat
  writtenAt : Int → Nat
  checkedAt : Nat → Nat

namespace LongTermWorld

variable {E D F : Type} [LinearOrder D] [LinearOrder F] (config : LongTermConfig E D F)

/-- The call goes on, or it is over. -/
def goesOn (s : LongTermWorld E F) (call : Nat) (next : Option (LongTermCall E F)) :
    LongTermWorld E F :=
  { s with calls := Function.update s.calls call next }

/-- The call has made its duplicate check. -/
def checked (s : LongTermWorld E F) (call : Nat) : LongTermWorld E F :=
  { s with checkedAt := Function.update s.checkedAt call s.writes }

/-- The row of the fact has been written. -/
def wrote (s : LongTermWorld E F) (id : Int) : LongTermWorld E F :=
  { s with writes := s.writes + 1, writtenAt := Function.update s.writtenAt id s.writes }

/-- The next unit of a call, when it does not fail. -/
def unit (s : LongTermWorld E F) (call : Nat) : LongTermCall E F → LongTermWorld E F
  | .checking req =>
      if hasRecentLongTermFact s.db req.kind req.fact
          (config.chrono.toRfc3339 (req.now - memorizeDedupeWindow)) then s.goesOn call none
      else (s.checked call).goesOn call (some (.embedding req))
  | .embedding req => s.goesOn call (some (.looking req (config.embed req.fact)))
  | .looking req blob =>
      match supersededBy config s.db req.kind blob with
      | some f => s.goesOn call (some (.superseding req blob f.id))
      | none => s.goesOn call (some (.inserting req blob))
  | .superseding req blob id =>
      match supersede config s.db id req blob with
      | .error _ => s.goesOn call none
      | .ok db => ({ s with db }.wrote id).goesOn call none
  | .inserting req blob =>
      let (id, db) := s.db.insertFact req.session req.fact req.kind req.importance blob
        (config.chrono.toRfc3339 req.now)
      ({ s with db }.wrote id).goesOn call (some (.indexing id blob))
  | .indexing id blob =>
      match s.db.insertVec id blob with
      | .error _ => s.goesOn call none
      | .ok db => { s with db }.goesOn call none
  | .recalling req =>
      match parseKindFilter req.kindFilter with
      | .error _ => s.goesOn call none
      | .ok kind => s.goesOn call (some (.searching req kind (config.embed req.query)))
  | .searching req kind query =>
      let found := forgetMatches config s.db req kind query
      if req.commit ∧ found ≠ [] then
        s.goesOn call (some (.deleting (found.map fun found => found.1.id)))
      else s.goesOn call none
  | .deleting ids => { s with db := deleteFacts ids s.db }.goesOn call none

def step (s : LongTermWorld E F) : LongTermAction F → Option (LongTermWorld E F)
  | .memorize call session content kind importance now =>
      -- the instants of the window have four-digit years
      if s.calls call = none ∧ FourDigitYear (now - memorizeDedupeWindow) ∧ FourDigitYear now then
        match memorizeRequest session content kind importance now with
        | .error _ => some s
        | .ok req => some (s.goesOn call (some (.checking req)))
      else none
  | .forget call query similarityThreshold maxMatches kindFilter commit =>
      if s.calls call = none then
        match forgetRequest config query similarityThreshold maxMatches kindFilter commit with
        | .error _ => some s
        | .ok req => some (s.goesOn call (some (.recalling req)))
      else none
  | .proceed call fails =>
      match s.calls call with
      | none => none
      | some next => some (if fails then s.goesOn call none else s.unit config call next)

variable {config} {s s' : LongTermWorld E F} {a : LongTermAction F}

theorem unit_inserting (s : LongTermWorld E F) (call : Nat) (req : MemorizeRequest) (blob : E) :
    s.unit config call (.inserting req blob) =
      ({ s with
          db := (s.db.insertFact req.session req.fact req.kind req.importance blob
            (config.chrono.toRfc3339 req.now)).2 }.wrote (s.db.sequence + 1)).goesOn call
        (some (.indexing (s.db.sequence + 1) blob)) := rfl

theorem db_unit_of_readsOnly {c : LongTermCall E F} (h : c.readsOnly = true) (call : Nat) :
    (s.unit config call c).db = s.db := by
  cases c with
  | checking req =>
      simp only [unit]
      split
      · rfl
      · rfl
  | embedding req => rfl
  | looking req blob =>
      simp only [unit]
      split
      · rfl
      · rfl
  | recalling req =>
      simp only [unit]
      split
      · rfl
      · rfl
  | searching req kind query =>
      simp only [unit]
      split
      · rfl
      · rfl
  | superseding | inserting | indexing | deleting => cases h

/-- **What one step does**: a call goes on by a unit or fails, or a call begins. -/
theorem step_cases (h : step config s a = some s') :
    (∃ call c, a = .proceed call false ∧ s.calls call = some c ∧ s' = s.unit config call c) ∨
    (∃ call, a = .proceed call true ∧ s' = s.goesOn call none) ∨
    (∃ call session content kind importance now req,
      a = .memorize call session content kind importance now ∧
      memorizeRequest session content kind importance now = .ok req ∧
      FourDigitYear (now - memorizeDedupeWindow) ∧ FourDigitYear now ∧
      s' = s.goesOn call (some (.checking req))) ∨
    (∃ call query similarityThreshold maxMatches kindFilter commit req,
      a = .forget call query similarityThreshold maxMatches kindFilter commit ∧
      s' = s.goesOn call (some (.recalling req))) ∨
    ((∀ call, a ≠ .proceed call false) ∧ s' = s) := by
  cases a with
  | memorize call session content kind importance now =>
      simp only [step, Option.ite_none_right_eq_some] at h
      obtain ⟨⟨-, hstart, hnow⟩, h⟩ := h
      cases hreq : memorizeRequest session content kind importance now with
      | error e =>
          simp only [hreq, Option.some.injEq] at h
          exact .inr (.inr (.inr (.inr ⟨by simp, h.symm⟩)))
      | ok req =>
          simp only [hreq, Option.some.injEq] at h
          exact .inr (.inr (.inl ⟨_, _, _, _, _, _, req, rfl, hreq, hstart, hnow, h.symm⟩))
  | forget call query similarityThreshold maxMatches kindFilter commit =>
      simp only [step, Option.ite_none_right_eq_some] at h
      obtain ⟨-, h⟩ := h
      cases hreq : forgetRequest config query similarityThreshold maxMatches kindFilter commit with
      | error e =>
          simp only [hreq, Option.some.injEq] at h
          exact .inr (.inr (.inr (.inr ⟨by simp, h.symm⟩)))
      | ok req =>
          simp only [hreq, Option.some.injEq] at h
          exact .inr (.inr (.inr (.inl ⟨_, _, _, _, _, _, req, rfl, h.symm⟩)))
  | proceed call fails =>
      simp only [step] at h
      cases hcall : s.calls call with
      | none => simp [hcall] at h
      | some c =>
          simp only [hcall, Option.some.injEq] at h
          cases fails with
          | false => exact .inl ⟨call, c, rfl, hcall, by simpa using h.symm⟩
          | true => exact .inr (.inl ⟨call, rfl, by simpa using h.symm⟩)

/-- **A property of the tables holds in every state of a run exactly if every unit meets a
condition**, when a unit keeps the property exactly if it meets the condition.  What begins or
fails meets every condition. -/
theorem forall_db_iff_stepsMeet {J : LongTermWorld E F → Prop} {P : LongTermDb E → Prop}
    {C : LongTermWorld E F → LongTermAction F → Prop}
    (hJ : ∀ s a s', J s → step config s a = some s' → J s')
    (hother : ∀ s a, (∀ call, a ≠ .proceed call false) → C s a)
    (hunit : ∀ s call c, J s → P s.db → s.calls call = some c →
      (P (s.unit config call c).db ↔ C s (.proceed call false)))
    {tr : List (LongTermAction F × LongTermWorld E F)} (hrun : Transition.Run (step config) s tr)
    (hs : J s) (hdb : P s.db) :
    (∀ x ∈ tr, P x.2.db) ↔ Transition.Run.StepsMeet C s tr := by
  refine Transition.Run.forall_iff_stepsMeet (J := J) (P := fun s => P s.db) hJ ?_ hrun hs hdb
  intro s a s' hs hdb hstep
  rcases step_cases hstep with ⟨call, c, rfl, hcall, rfl⟩ | ⟨call, rfl, rfl⟩ |
    ⟨call, _, _, _, _, _, req, rfl, -, -, -, rfl⟩ | ⟨call, _, _, _, _, _, req, rfl, rfl⟩ |
    ⟨hquiet, rfl⟩
  · exact hunit s call c hs hdb hcall
  · exact iff_of_true hdb (hother _ _ (by simp))
  · exact iff_of_true hdb (hother _ _ (by simp))
  · exact iff_of_true hdb (hother _ _ (by simp))
  · exact iff_of_true hdb (hother _ _ hquiet)

end LongTermWorld

end Memory
end SimpleClaw
