import SimpleClaw.Memory.LongTermCalls

/-!
# Facts and their vectors

The two tables of long-term memory have the same ids as long as no fact is inserted: the two
statements of an insertion commit one after the other.  A replacement is a transaction, but it acts
on an id read before, and puts the vector back of a fact that has been forgotten since.

* `LongTermDb.Indexed`: the ids of the facts are those of the vectors.
* `LongTermWorld.Allocated`: no id is larger than the last one given out.
* `unit_indexed_iff`: which units keep the tables in step.
* `indexed_iff_keepsIndex`: the same of whole runs.
-/

namespace SimpleClaw
namespace Memory

open Transition

/-- **Every fact has a vector, and every vector a fact.** -/
def LongTermDb.Indexed {E : Type} (db : LongTermDb E) : Prop :=
  ∀ id, id ∈ db.factIds ↔ id ∈ db.vecIds

/-- The id that the next unit of the call acts on. -/
def LongTermCall.target {E F : Type} : LongTermCall E F → Option Int
  | .superseding _ _ id | .indexing id _ => some id
  | .checking _ | .embedding _ | .looking _ _ | .inserting _ _ => none
  | .recalling _ | .searching _ _ _ | .deleting _ => none

namespace LongTermWorld

/-! ## Ids that have been given out -/

/-- No id in use is larger than the last one given out. -/
structure Allocated {E F : Type} (s : LongTermWorld E F) : Prop where
  facts : ∀ id ∈ s.db.factIds, id ≤ s.db.sequence
  vec : ∀ id ∈ s.db.vecIds, id ≤ s.db.sequence
  targets : ∀ call c id, s.calls call = some c → c.target = some id → id ≤ s.db.sequence

section Ids

variable {E F : Type} {s : LongTermWorld E F}

theorem Allocated.goesOn (h : s.Allocated) (call : Nat) {next : Option (LongTermCall E F)}
    (hnext : ∀ c id, next = some c → c.target = some id → id ≤ s.db.sequence) :
    (s.goesOn call next).Allocated where
  facts := h.facts
  vec := h.vec
  targets call' c id hcall htarget := by
    by_cases heq : call' = call
    · subst heq
      exact hnext c id (by simpa [LongTermWorld.goesOn] using hcall) htarget
    · exact h.targets call' c id (by simpa [LongTermWorld.goesOn, heq] using hcall) htarget

theorem Allocated.over (h : s.Allocated) (call : Nat) : (s.goesOn call none).Allocated :=
  h.goesOn call (by simp)

theorem Allocated.setDb (h : s.Allocated) {db : LongTermDb E}
    (hfacts : ∀ id ∈ db.factIds, id ≤ db.sequence) (hvec : ∀ id ∈ db.vecIds, id ≤ db.sequence)
    (hsequence : s.db.sequence ≤ db.sequence) : Allocated { s with db } where
  facts := hfacts
  vec := hvec
  targets call c id hcall htarget := le_trans (h.targets call c id hcall htarget) hsequence

theorem Allocated.checked (h : s.Allocated) (call : Nat) : (s.checked call).Allocated :=
  ⟨h.facts, h.vec, h.targets⟩

theorem Allocated.wrote (h : s.Allocated) (id : Int) : (s.wrote id).Allocated :=
  ⟨h.facts, h.vec, h.targets⟩

end Ids

section Config

variable {E D F : Type} [LinearOrder D] [LinearOrder F] {config : LongTermConfig E D F}
  {s s' : LongTermWorld E F} {call : Nat} {c : LongTermCall E F} {a : LongTermAction F}

variable (config) in
/-- A fact is replaced. -/
theorem Allocated.superseding (h : s.Allocated) {req : MemorizeRequest} {blob : E} {id : Int}
    (hcall : s.calls call = some (.superseding req blob id)) :
    (s.unit config call (.superseding req blob id)).Allocated := by
  obtain ⟨db', hdb, -, hids, hvec, hsequence⟩ := exists_supersede config s.db id req blob
  simp only [LongTermWorld.unit, hdb]
  refine ((h.setDb ?_ ?_ (le_of_eq hsequence.symm)).wrote id).over call
  · rw [hsequence, hids]
    exact h.facts
  · rw [hsequence, hvec]
    intro id' hid'
    rcases List.mem_append.mp hid' with hid' | hid'
    · exact h.vec id' (List.mem_of_mem_filter hid')
    · rw [List.mem_singleton.mp hid']
      exact h.targets call _ id hcall rfl

variable (config) in
/-- A fact is inserted, under the next id. -/
theorem Allocated.inserting (h : s.Allocated) (call : Nat) (req : MemorizeRequest) (blob : E) :
    (s.unit config call (.inserting req blob)).Allocated := by
  rw [unit_inserting]
  refine Allocated.goesOn ((h.setDb ?_ ?_ ?_).wrote _) call ?_
  · rw [LongTermDb.factIds_insertFact]
    intro id hid
    show id ≤ s.db.sequence + 1
    rcases List.mem_append.mp hid with hid | hid
    · have hle := h.facts id hid
      omega
    · exact le_of_eq (List.mem_singleton.mp hid)
  · intro id hid
    show id ≤ s.db.sequence + 1
    have hle := h.vec id hid
    omega
  · show s.db.sequence ≤ s.db.sequence + 1
    omega
  · rintro _ _ ⟨⟩ ⟨⟩
    exact le_refl _

variable (config) in
theorem Allocated.unit (h : s.Allocated) (hcall : s.calls call = some c) :
    (s.unit config call c).Allocated := by
  cases c with
  | checking req =>
      simp only [LongTermWorld.unit]
      split
      · exact h.over call
      · exact (h.checked call).goesOn call (by rintro _ _ ⟨⟩ ⟨⟩)
  | embedding req => exact h.goesOn call (by rintro _ _ ⟨⟩ ⟨⟩)
  | looking req blob =>
      simp only [LongTermWorld.unit]
      split
      · next f hf =>
          refine h.goesOn call ?_
          rintro _ _ ⟨⟩ ⟨⟩
          exact h.facts f.id (List.mem_map_of_mem (supersededBy_eq_some hf).1)
      · exact h.goesOn call (by rintro _ _ ⟨⟩ ⟨⟩)
  | superseding req blob id => exact h.superseding config hcall
  | inserting req blob => exact h.inserting config call req blob
  | indexing id blob =>
      simp only [LongTermWorld.unit]
      split
      · exact h.over call
      · next db hdb =>
          obtain ⟨-, rfl⟩ := LongTermDb.insertVec_eq_ok_iff.mp hdb
          refine Allocated.over ?_ call
          refine h.setDb h.facts ?_ (le_refl _)
          intro id' hid'
          rw [LongTermDb.vecIds, List.map_append] at hid'
          rcases List.mem_append.mp hid' with hid' | hid'
          · exact h.vec id' hid'
          · rw [List.mem_singleton.mp hid']
            exact h.targets call _ id hcall rfl
  | recalling req =>
      simp only [LongTermWorld.unit]
      split
      · exact h.over call
      · exact h.goesOn call (by rintro _ _ ⟨⟩ ⟨⟩)
  | searching req kind query =>
      simp only [LongTermWorld.unit]
      split
      · exact h.goesOn call (by rintro _ _ ⟨⟩ ⟨⟩)
      · exact h.over call
  | deleting ids =>
      refine Allocated.over (h.setDb ?_ ?_ ?_) call
      · rw [factIds_deleteFacts, sequence_deleteFacts]
        exact fun id hid => h.facts id (List.mem_of_mem_filter hid)
      · rw [vecIds_deleteFacts, sequence_deleteFacts]
        exact fun id hid => h.vec id (List.mem_of_mem_filter hid)
      · exact le_of_eq (sequence_deleteFacts ids).symm

theorem Allocated.step (h : s.Allocated) (hstep : LongTermWorld.step config s a = some s') :
    s'.Allocated := by
  rcases step_cases hstep with ⟨call, c, -, hcall, rfl⟩ | ⟨call, -, rfl⟩ |
    ⟨call, _, _, _, _, _, req, -, -, -, -, rfl⟩ | ⟨call, _, _, _, _, _, req, -, rfl⟩ | ⟨-, rfl⟩
  · exact h.unit config hcall
  · exact h.over call
  · exact h.goesOn call (by rintro _ _ ⟨⟩ ⟨⟩)
  · exact h.goesOn call (by rintro _ _ ⟨⟩ ⟨⟩)
  · exact h

/-! ## Which units keep the tables in step -/

/-- The unit writes both tables or neither: it is not the first statement of an insertion, and the
fact that it replaces or whose vector it inserts is there. -/
def KeepsIndex (s : LongTermWorld E F) : LongTermAction F → Prop
  | .proceed call false =>
      match s.calls call with
      | some (.superseding _ _ id) | some (.indexing id _) => id ∈ s.db.factIds
      | some (.inserting _ _) => False
      | some (.checking _) | some (.embedding _) | some (.looking _ _) => True
      | some (.recalling _) | some (.searching _ _ _) | some (.deleting _) | none => True
  | .proceed _ true | .memorize _ _ _ _ _ _ | .forget _ _ _ _ _ _ => True

/-- **A unit keeps the tables in step exactly if it writes both or neither.** -/
theorem unit_indexed_iff (h : s.Allocated) (hindexed : s.db.Indexed)
    (hcall : s.calls call = some c) :
    (s.unit config call c).db.Indexed ↔ KeepsIndex s (.proceed call false) := by
  simp only [KeepsIndex, hcall]
  cases c with
  | checking | embedding | looking | recalling | searching =>
      rw [db_unit_of_readsOnly rfl]
      exact iff_of_true hindexed trivial
  | superseding req blob id =>
      obtain ⟨db', hdb, -, hids, hvec, -⟩ := exists_supersede config s.db id req blob
      simp only [LongTermWorld.unit, hdb]
      show db'.Indexed ↔ id ∈ s.db.factIds
      rw [LongTermDb.Indexed, hids, hvec]
      constructor
      · intro hall
        exact (hall id).mpr (by simp)
      · intro hid id'
        by_cases heq : id' = id
        · subst heq
          exact iff_of_true hid (by simp)
        · simp [heq, hindexed id']
  | inserting req blob =>
      rw [unit_inserting]
      refine iff_of_false (fun hall => ?_) id
      -- the new id has no vector
      have hnew : s.db.sequence + 1 ∈ s.db.vecIds := by
        refine (hall (s.db.sequence + 1)).mp ?_
        show _ ∈ LongTermDb.factIds (LongTermDb.insertFact _ _ _ _ _ _ _).2
        rw [LongTermDb.factIds_insertFact]
        simp
      have hle := h.vec _ hnew
      omega
  | indexing id blob =>
      simp only [LongTermWorld.unit]
      split
      · next e hdb =>
          -- the insertion of a vector fails only if there is one
          have hmem : id ∈ s.db.vecIds := by
            by_contra hnot
            rw [LongTermDb.insertVec_eq_ok_iff.mpr ⟨hnot, rfl⟩] at hdb
            cases hdb
          exact iff_of_true hindexed ((hindexed id).mpr hmem)
      · next db hdb =>
          obtain ⟨hnot, rfl⟩ := LongTermDb.insertVec_eq_ok_iff.mp hdb
          refine iff_of_false (fun hall => ?_) (mt (hindexed id).mp hnot)
          have hmem : id ∈ s.db.factIds := (hall id).mpr (by simp [LongTermWorld.goesOn,
            LongTermDb.vecIds])
          exact hnot ((hindexed id).mp hmem)
  | deleting ids =>
      refine iff_of_true (fun id => ?_) trivial
      show id ∈ (deleteFacts ids s.db).factIds ↔ id ∈ (deleteFacts ids s.db).vecIds
      rw [factIds_deleteFacts, vecIds_deleteFacts, List.mem_filter, List.mem_filter, hindexed id]

/-- **The tables have the same ids in every state of a run if and only if every step writes both or
neither.** -/
theorem indexed_iff_keepsIndex {tr : List (LongTermAction F × LongTermWorld E F)}
    (hrun : Run (LongTermWorld.step config) s tr) (h : s.Allocated) (hindexed : s.db.Indexed) :
    (∀ x ∈ tr, x.2.db.Indexed) ↔ Run.StepsMeet KeepsIndex s tr := by
  refine forall_db_iff_stepsMeet (fun s a s' hs hstep => Allocated.step hs hstep)
    (fun s a hother => ?_) (fun s call c hs => unit_indexed_iff hs) hrun h hindexed
  cases a with
  | memorize => trivial
  | forget => trivial
  | proceed call fails =>
      cases fails with
      | false => exact absurd rfl (hother call)
      | true => trivial

end Config

end LongTermWorld

/-! ## A small store -/

open LongTermWorld

/-- Embeddings on a line. -/
def lineIndex : VecIndex Int Nat where
  distance a b := (a - b).natAbs
  tie := id
  tie_injective := Function.injective_id

/-- Similarities in percent. -/
def percent : Similarity Nat Int where
  ofDistance d := 100 - d
  antitone d e h := by
    show (100 : Int) - e ≤ 100 - d
    omega
  zero := 0
  one := 100
  zero_le_one := by decide
  supersedeThreshold := 92

/-- Facts are as similar as they are long. -/
def sampleStore : LongTermConfig Int Nat Int where
  chrono := Chrono.utc
  embed t := 5 * t.length
  index := lineIndex
  similarity := percent

/-- No calls, on the given tables. -/
def idle (db : LongTermDb Int) : LongTermWorld Int Int where
  db := db
  calls _ := none
  writes := 0
  writtenAt _ := 0
  checkedAt _ := 0

def emptyStore : LongTermDb Int where
  facts := []
  vec := []
  sequence := 0

/-- A fact that is replaced, and then forgotten. -/
def teaStore : LongTermDb Int where
  facts := [{ id := 1, sourceSessionId := "agent:a:main", content := "tea at four",
              kind := "preferences", importance := 3, embedding := 55,
              createdAt := utcText 0 }]
  vec := [{ id := 1, embedding := 55 }]
  sequence := 1

def teaActions : List (LongTermAction Int) :=
  [.memorize 0 "agent:a:main" "tea at five" "preferences" 3 (3600 * nanosPerSecond),
    .proceed 0 false, .proceed 0 false, .proceed 0 false, .proceed 0 false,
    .forget 1 "tea at noon" 90 5 none true,
    .proceed 1 false, .proceed 1 false, .proceed 1 false]

theorem allocated_idle_tea : (idle teaStore).Allocated where
  facts := by decide
  vec := by decide
  targets _ _ _ hcall := by cases hcall

theorem exists_exec_tea :
    ∃ tr, exec (LongTermWorld.step sampleStore) (idle teaStore) teaActions = some tr :=
  Option.isSome_iff_exists.mp (by decide +kernel)

theorem indexed_iff_keepsIndex_tea :
    ∃ tr, exec (LongTermWorld.step sampleStore) (idle teaStore) teaActions = some tr ∧
      ((∀ x ∈ tr, x.2.db.Indexed) ↔ Run.StepsMeet KeepsIndex (idle teaStore) tr) := by
  obtain ⟨tr, htr⟩ := exists_exec_tea
  exact ⟨tr, htr, indexed_iff_keepsIndex (run_of_exec htr) allocated_idle_tea fun id => Iff.rfl⟩

/-- The first call on an empty store, up to the statement that inserts the vector. -/
def halfInserted : List (LongTermAction Int) :=
  [.memorize 0 "agent:a:main" "tea at five" "preferences" 3 0,
    .proceed 0 false, .proceed 0 false, .proceed 0 false, .proceed 0 false, .proceed 0 true]

/-- When the second statement of an insertion fails, the fact stays without a vector. -/
theorem fact_without_vector : ∃ tr, Run (LongTermWorld.step sampleStore) (idle emptyStore) tr ∧
    (idle emptyStore).db.Indexed ∧ ∃ x ∈ tr, x.2.calls 0 = none ∧ ¬ x.2.db.Indexed := by
  obtain ⟨tr, hrun, x, hx, hids⟩ := exists_run_of_exec (LongTermWorld.step sampleStore)
    (idle emptyStore) halfInserted
    (fun s => (s.calls 0).isNone && decide (s.db.factIds = [1]) && decide (s.db.vecIds = []))
    (by decide +kernel)
  simp only [Bool.and_eq_true, Option.isNone_iff_eq_none, decide_eq_true_eq] at hids
  obtain ⟨⟨hcalls, hfacts⟩, hvec⟩ := hids
  refine ⟨tr, hrun, fun id => Iff.rfl, x, hx, hcalls, fun hall => ?_⟩
  have hmem := (hall 1).mp (by rw [hfacts]; exact List.mem_singleton_self 1)
  rw [hvec] at hmem
  cases hmem

end Memory
end SimpleClaw
