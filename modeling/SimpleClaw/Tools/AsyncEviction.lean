import Mathlib.Data.Set.Card
import SimpleClaw.Lib.Nearest
import SimpleClaw.Tools.AsyncIsolation

/-!
# Which runs are evicted

When a run is started, runs that are over are taken out of the table until a fixed number of them
is left.  They are found by going through a hash map, in whatever order it has, and sorted by the
time at which they finished; runs that finished at the same time stay in the order of the map.

* `IsOrderOf`: an order in which the map can be gone through.
* `KeepsLatest`: what is to be left.
* `autoEvict_keepsLatest`: it is what is left, in any order.
* `Sound.step_start_evicts`: at every start of a run the order is one of the table.
-/

namespace SimpleClaw
namespace Tools

/-- Each key of the table, once. -/
structure IsOrderOf (order : List Text) (runs : RunTable) : Prop where
  nodup : order.Nodup
  mem_iff : ∀ id, id ∈ order ↔ (runs id).isSome = true

/-- When the run finished; a run that is over but has no such time counts by its start. -/
def finishTime (entry : AsyncToolRunEntry) : Nat := entry.finishedAt.getD entry.startedAt

/-- The runs of the table that are over. -/
def finished (runs : RunTable) : Set Text :=
  {id | ∃ entry, runs id = some entry ∧ entry.status ≠ .running}

/-- Runs that are over may be gone, the latest ones and all others are not. -/
structure KeepsLatest (runs runs' : RunTable) : Prop where
  running : ∀ id entry, runs id = some entry → entry.status = .running → runs' id = some entry
  unchanged : ∀ id entry, runs' id = some entry → runs id = some entry
  count : (finished runs').ncard = min (finished runs).ncard maxCompleted
  latest : ∀ id entry, runs id = some entry → runs' id = none →
    ∀ id' entry', runs' id' = some entry' → entry'.status ≠ .running →
      finishTime entry ≤ finishTime entry'

variable {order : List Text} {runs : RunTable} {id : Text}

/-! ## The runs that are over, oldest first -/

/-- The runs that are over, with their times, in the order in which they are evicted. -/
def byFinish (order : List Text) (runs : RunTable) : List (Text × Nat) :=
  Nearest.byKey Prod.snd (finishedRuns order runs)

theorem finishedRun_eq_some_iff {id' : Text} {time : Nat} :
    ((runs id).bind fun entry =>
      if entry.status ≠ .running then some (id, entry.finishedAt.getD entry.startedAt)
      else none) = some (id', time) ↔
    id = id' ∧ ∃ entry, runs id' = some entry ∧ entry.status ≠ .running ∧
      finishTime entry = time := by
  rw [Option.bind_eq_some_iff]
  constructor
  · rintro ⟨entry, hentry, hover⟩
    split at hover
    · next hstatus =>
      obtain ⟨rfl, htime⟩ := Prod.mk.inj (Option.some.inj hover)
      exact ⟨rfl, entry, hentry, hstatus, htime⟩
    · cases hover
  · rintro ⟨rfl, entry, hentry, hstatus, rfl⟩
    exact ⟨entry, hentry, if_pos hstatus⟩

theorem mem_finishedRuns_iff {time : Nat} : (id, time) ∈ finishedRuns order runs ↔
    id ∈ order ∧ ∃ entry, runs id = some entry ∧ entry.status ≠ .running ∧
      finishTime entry = time := by
  simp only [finishedRuns, List.mem_filterMap, finishedRun_eq_some_iff]
  constructor
  · rintro ⟨id', hmem, rfl, hentry⟩
    exact ⟨hmem, hentry⟩
  · rintro ⟨hmem, hentry⟩
    exact ⟨id, hmem, rfl, hentry⟩

/-- No run is listed twice. -/
theorem nodup_finishedRuns (horder : order.Nodup) :
    ((finishedRuns order runs).map Prod.fst).Nodup := by
  refine List.pairwise_map.mpr (List.Pairwise.filterMap _ ?_ horder)
  rintro id id' hne ⟨a, time⟩ ha ⟨a', time'⟩ ha'
  obtain ⟨rfl, -⟩ := finishedRun_eq_some_iff.mp ha
  obtain ⟨rfl, -⟩ := finishedRun_eq_some_iff.mp ha'
  exact hne

theorem evicted_eq (order : List Text) (runs : RunTable) : evicted order runs =
    ((byFinish order runs).take ((byFinish order runs).length - maxCompleted)).map Prod.fst := by
  have hlength : (byFinish order runs).length = (finishedRuns order runs).length :=
    (Nearest.perm_byKey _).length_eq
  rw [evicted, hlength]
  split
  · next hle => rw [Nat.sub_eq_zero_of_le hle, List.take_zero, List.map_nil]
  · rfl

/-- The runs that are left of those that are over. -/
def keptFinished (order : List Text) (runs : RunTable) : List (Text × Nat) :=
  (byFinish order runs).drop ((byFinish order runs).length - maxCompleted)

theorem nodup_byFinish (horder : order.Nodup) : ((byFinish order runs).map Prod.fst).Nodup :=
  ((Nearest.perm_byKey _).map Prod.fst).nodup_iff.mpr (nodup_finishedRuns horder)

section Evict

variable (horder : IsOrderOf order runs)
include horder

theorem mem_byFinish_iff {time : Nat} : (id, time) ∈ byFinish order runs ↔
    ∃ entry, runs id = some entry ∧ entry.status ≠ .running ∧ finishTime entry = time := by
  rw [byFinish, Nearest.mem_byKey, mem_finishedRuns_iff, and_iff_right_iff_imp]
  rintro ⟨entry, hentry, -⟩
  exact (horder.mem_iff id).mpr (by rw [hentry]; rfl)

theorem finished_eq : finished runs = {id | id ∈ (byFinish order runs).map Prod.fst} := by
  ext id
  simp only [finished, Set.mem_ofPred_eq, List.mem_map, Prod.exists, exists_and_right,
    exists_eq_right, mem_byFinish_iff horder]
  exact ⟨fun ⟨entry, hentry, hstatus⟩ => ⟨_, entry, hentry, hstatus, rfl⟩,
    fun ⟨_, entry, hentry, hstatus, _⟩ => ⟨entry, hentry, hstatus⟩⟩

omit horder in
theorem autoEvict_eq_some_iff {entry : AsyncToolRunEntry} :
    autoEvict order runs id = some entry ↔ id ∉ evicted order runs ∧ runs id = some entry := by
  rw [autoEvict]
  split
  · next hmem => exact iff_of_false (fun h => by cases h) fun h => h.1 hmem
  · next hmem => exact (and_iff_right hmem).symm

theorem finished_autoEvict :
    finished (autoEvict order runs) = {id | id ∈ (keptFinished order runs).map Prod.fst} := by
  have hsplit : (evicted order runs ++ (keptFinished order runs).map Prod.fst) =
      (byFinish order runs).map Prod.fst := by
    rw [evicted_eq, keptFinished, ← List.map_append, List.take_append_drop]
  have hnodup := hsplit ▸ nodup_byFinish horder.nodup
  ext id
  have hid : id ∈ finished runs ↔
      id ∈ evicted order runs ∨ id ∈ (keptFinished order runs).map Prod.fst := by
    rw [finished_eq horder, Set.mem_ofPred_eq, ← hsplit, List.mem_append]
  have hleft : id ∈ finished (autoEvict order runs) ↔
      id ∉ evicted order runs ∧ id ∈ finished runs := by
    simp only [finished, Set.mem_ofPred_eq, autoEvict_eq_some_iff]
    tauto
  rw [hleft, hid, Set.mem_ofPred_eq]
  constructor
  · rintro ⟨hnot, hmem⟩
    exact hmem.resolve_left hnot
  · intro hmem
    exact ⟨fun hevicted => List.disjoint_of_nodup_append hnodup hevicted hmem, .inr hmem⟩

omit horder in
theorem ncard_mem {l : List Text} (h : l.Nodup) : {id | id ∈ l}.ncard = l.length := by
  rw [← List.coe_toFinset, Set.ncard_coe_finset, List.toFinset_card_of_nodup h]

theorem ncard_finished_autoEvict : (finished (autoEvict order runs)).ncard =
    min (finished runs).ncard maxCompleted := by
  have hnodup : ((byFinish order runs).map Prod.fst).Nodup := nodup_byFinish horder.nodup
  have hkept : ((keptFinished order runs).map Prod.fst).Nodup := by
    rw [keptFinished, List.map_drop]
    exact hnodup.sublist (List.drop_sublist _ _)
  rw [finished_autoEvict horder, finished_eq horder, ncard_mem hnodup, ncard_mem hkept,
    List.length_map, List.length_map, keptFinished, List.length_drop]
  omega

/-- What is evicted finished no later than what is left of the runs that are over. -/
theorem finishTime_le {id' : Text} {entry entry' : AsyncToolRunEntry}
    (hrun : runs id = some entry) (hevicted : id ∈ evicted order runs)
    (hrun' : autoEvict order runs id' = some entry') (hover : entry'.status ≠ .running) :
    finishTime entry ≤ finishTime entry' := by
  rw [evicted_eq] at hevicted
  obtain ⟨⟨_, time⟩, htake, rfl⟩ := List.mem_map.mp hevicted
  have hkept : id' ∈ (keptFinished order runs).map Prod.fst := by
    have hmem : id' ∈ finished (autoEvict order runs) := ⟨entry', hrun', hover⟩
    rwa [finished_autoEvict horder] at hmem
  obtain ⟨⟨_, time'⟩, hdrop, rfl⟩ := List.mem_map.mp hkept
  have hle : time ≤ time' := (Nearest.pairwise_byKey (finishedRuns order runs)
    ).rel_of_mem_take_of_mem_drop htake hdrop
  obtain ⟨e, he, -, htime⟩ := (mem_byFinish_iff horder).mp (List.mem_of_mem_take htake)
  obtain ⟨e', he', -, htime'⟩ := (mem_byFinish_iff horder).mp (List.mem_of_mem_drop hdrop)
  obtain rfl := Option.some.inj (hrun.symm.trans he)
  obtain rfl := Option.some.inj ((autoEvict_eq_some_iff.mp hrun').2.symm.trans he')
  rwa [htime, htime']

/-- **What is evicted is the earliest of the runs that are over**, whatever the order of the
map. -/
theorem autoEvict_keepsLatest : KeepsLatest runs (autoEvict order runs) := by
  constructor
  case running =>
    intro id entry hrun hrunning
    refine autoEvict_eq_some_iff.mpr ⟨fun hmem => ?_, hrun⟩
    obtain ⟨entry', hrun', hover⟩ := status_of_mem_evicted hmem
    obtain rfl := Option.some.inj (hrun.symm.trans hrun')
    exact hover hrunning
  case unchanged => exact fun id entry h => (autoEvict_eq_some_iff.mp h).2
  case count => exact ncard_finished_autoEvict horder
  case latest =>
    intro id entry hrun hgone id' entry' hrun' hover
    refine finishTime_le horder hrun ?_ hrun' hover
    by_contra hmem
    have hthere := autoEvict_eq_some_iff.mpr ⟨hmem, hrun⟩
    rw [hgone] at hthere
    cases hthere

end Evict

/-- More runs that are over than are kept, all finished at the same time, and one that goes on. -/
def crowdedRuns : RunTable := fun id =>
  if id = ("1-0" : Text) then some (newEntry "exec" "main" "s" (.process "make" 7) 0)
  else if id ∈ (List.range 66).map Text.decimal then
    some { newEntry "exec" "main" "s" (.process "make" 7) 0 with
      status := .completed
      finishedAt := some 5 }
  else none

theorem autoEvict_keepsLatest_crowdedRuns :
    KeepsLatest crowdedRuns
      (autoEvict (("1-0" : Text) :: (List.range 66).map Text.decimal) crowdedRuns) := by
  refine autoEvict_keepsLatest ⟨?_, fun id => ?_⟩
  · refine List.nodup_cons.mpr ⟨by decide, List.Nodup.map Text.decimal_injective List.nodup_range⟩
  · rw [crowdedRuns, List.mem_cons]
    split
    · next h => exact iff_of_true (.inl h) rfl
    · next h => split <;> simp_all

/-! ## At the start of a run -/

namespace AsyncRunManager

variable {s s' : AsyncRunManager} {seq now : Nat} {toolName agentId sessionKey : Text}
  {request : RunRequest} {hasRoute : Bool}

/-- The keys of the table are the ids of the runs that were started and are still there. -/
theorem Sound.isOrderOf (h : s.Sound) (hseq : seq ∈ s.taken) (entry : AsyncToolRunEntry)
    (horder : order.Perm ((s.table.started.filter fun runId => (s.table.runs runId).isSome) ++
      [runIdOf now seq])) :
    IsOrderOf order (Function.update s.table.runs (runIdOf now seq) (some entry)) := by
  have hnew : runIdOf now seq ∉ s.table.started := h.not_started now hseq
  constructor
  · refine horder.nodup_iff.mpr (List.nodup_append.mpr ⟨h.unique.filter _, ?_, ?_⟩)
    · exact List.nodup_singleton _
    · rintro id hid _ hid' rfl
      rw [List.mem_singleton] at hid'
      exact hnew (hid' ▸ List.mem_of_mem_filter hid)
  · intro id
    rw [horder.mem_iff, List.mem_append, List.mem_filter, List.mem_singleton]
    by_cases hid : id = runIdOf now seq
    · subst hid
      simp
    · rw [Function.update_of_ne hid, or_iff_left hid, and_iff_right_iff_imp]
      intro hthere
      obtain ⟨entry', hentry'⟩ := Option.isSome_iff_exists.mp hthere
      exact (h.entries id entry' hentry').2.1

/-- **At every start the runs are gone through in an order of the table** with the new run in it,
before some of those that are over are evicted. -/
theorem Sound.step_start_evicts (h : s.Sound)
    (hstep : s.step (.start seq toolName agentId sessionKey request hasRoute now order) =
      some s') :
    ∃ inserted, inserted = Function.update s.table.runs (runIdOf now seq)
        (some (newEntry toolName agentId sessionKey request now)) ∧
      IsOrderOf order inserted ∧ s'.table.runs = autoEvict order inserted := by
  obtain ⟨hseq, -, -, -, -, -, hruns⟩ := step_start hstep
  refine ⟨_, rfl, h.isOrderOf hseq _ ?_, hruns⟩
  rw [AsyncRunManager.step, if_pos hseq, AsyncRuns.step] at hstep
  split at hstep
  · next hperm => exact List.isPerm_iff.mp hperm
  · cases hstep

/-- Right after a start there are no more runs that are over than are kept. -/
theorem Sound.ncard_finished_start_le (h : s.Sound)
    (hstep : s.step (.start seq toolName agentId sessionKey request hasRoute now order) =
      some s') : (finished s'.table.runs).ncard ≤ maxCompleted := by
  obtain ⟨inserted, -, horder, hruns⟩ := h.step_start_evicts hstep
  rw [hruns, ncard_finished_autoEvict horder]
  exact Nat.min_le_right _ _

end AsyncRunManager

end Tools
end SimpleClaw
