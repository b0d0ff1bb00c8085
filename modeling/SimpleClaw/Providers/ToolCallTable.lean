import Mathlib.Data.List.Nodup
import SimpleClaw.Providers.Types

/-!
# Recording tool calls

The table of a stream keeps one call for each id and every call without one.

* `ToolCallTable.Indexed`: the index leads to the calls.
* `ToolCallTable.recordAll_eq_iff`: when calls that are recorded are the calls kept.
* `ToolCallTable.recordAll_twice_eq_iff`: when they are, recorded twice.
* `ToolCallTable.Emits`, `ToolCallTable.emits_recordAll`: what is kept of any calls.
-/

namespace SimpleClaw
namespace Providers
namespace ToolCallTable

variable {table : ToolCallTable} {call : ToolCall} {calls : List ToolCall}

def ids (table : ToolCallTable) : List (Option Text) := table.toolCalls.map ToolCall.id

/-- The index leads to the call of an id, and to none only if there is none. -/
structure Indexed (table : ToolCallTable) : Prop where
  of_some : ∀ id index, table.toolCallIndicesById.lookup id = some index →
    table.ids[index]? = some (some id)
  of_none : ∀ id, table.toolCallIndicesById.lookup id = none → some id ∉ table.ids

theorem indexed_empty : Indexed empty where
  of_some _ _ h := by cases h
  of_none _ _ h := by cases h

/-! ## One call -/

theorem set_eq_self {α : Type} {l : List α} {i : Nat} {a : α} (h : l[i]? = some a) :
    l.set i a = l := by
  obtain ⟨hlt, rfl⟩ := List.getElem?_eq_some_iff.mp h
  exact List.set_getElem_self hlt

theorem getElem?_append_of_eq_some {α : Type} {l : List α} {i : Nat} {a : α} (h : l[i]? = some a)
    (l' : List α) : (l ++ l')[i]? = some a := by
  obtain ⟨hlt, -⟩ := List.getElem?_eq_some_iff.mp h
  rw [List.getElem?_append_left hlt, h]

/-- A call without an id, or of a new one, is added. -/
theorem recordToolCall_of_notMem (h : Indexed table) (hnew : call.id = none ∨ call.id ∉ table.ids) :
    (table.recordToolCall call).toolCalls = table.toolCalls ++ [call] := by
  rw [recordToolCall]
  cases hid : call.id with
  | none => rfl
  | some id =>
      cases hlookup : table.toolCallIndicesById.lookup id with
      | none => simp only [hlookup]
      | some index =>
          have hmem := List.mem_of_getElem? (h.of_some id index hlookup)
          rw [hid] at hnew
          exact absurd hmem (hnew.resolve_left (by simp))

/-- A call of an id that is there takes the place of one with this id. -/
theorem recordToolCall_of_mem (h : Indexed table) {id : Text} (hid : call.id = some id)
    (hmem : some id ∈ table.ids) :
    ∃ index, table.ids[index]? = some (some id) ∧
      table.recordToolCall call = { table with toolCalls := table.toolCalls.set index call } := by
  cases hlookup : table.toolCallIndicesById.lookup id with
  | none => exact absurd hmem (h.of_none id hlookup)
  | some index =>
      refine ⟨index, h.of_some id index hlookup, ?_⟩
      rw [recordToolCall, hid]
      simp only [hlookup]

/-- The ids after a call: a new one is added. -/
theorem ids_recordToolCall (h : Indexed table) (call : ToolCall) :
    (table.recordToolCall call).ids =
      if call.id ≠ none ∧ call.id ∈ table.ids then table.ids else table.ids ++ [call.id] := by
  split
  · next hmem =>
    obtain ⟨id, hid⟩ := Option.ne_none_iff_exists'.mp hmem.1
    obtain ⟨index, hindex, hrecord⟩ := recordToolCall_of_mem h hid (hid ▸ hmem.2)
    rw [hrecord, ids, List.map_set, hid]
    exact set_eq_self hindex
  · next hmem =>
    rw [ids, recordToolCall_of_notMem h, List.map_append]
    · rfl
    · by_contra hnew
      rw [not_or, not_not] at hnew
      exact hmem hnew

/-- **The index goes on leading to the calls.** -/
theorem Indexed.recordToolCall (h : Indexed table) (call : ToolCall) :
    Indexed (table.recordToolCall call) := by
  have hids := ids_recordToolCall h call
  cases hid : call.id with
  | none =>
      rw [hid, if_neg fun hmem => hmem.1 rfl] at hids
      have hindices : (table.recordToolCall call).toolCallIndicesById =
          table.toolCallIndicesById := by
        rw [ToolCallTable.recordToolCall, hid]
      refine ⟨fun id index hlookup => ?_, fun id hlookup => ?_⟩
      · rw [hindices] at hlookup
        rw [hids]
        exact getElem?_append_of_eq_some (h.of_some id index hlookup) _
      · rw [hindices] at hlookup
        rw [hids, List.mem_append]
        rintro (hmem | hmem)
        · exact h.of_none id hlookup hmem
        · simp at hmem
  | some new =>
      by_cases hmem : some new ∈ table.ids
      · obtain ⟨index, -, hrecord⟩ := recordToolCall_of_mem h hid hmem
        rw [hid, if_pos ⟨by simp, hmem⟩] at hids
        refine ⟨fun id index hlookup => ?_, fun id hlookup => ?_⟩
        · rw [hrecord] at hlookup
          rw [hids]
          exact h.of_some id index hlookup
        · rw [hrecord] at hlookup
          rw [hids]
          exact h.of_none id hlookup
      · have hlookup : table.toolCallIndicesById.lookup new = none := by
          by_contra hne
          obtain ⟨index, hindex⟩ := Option.ne_none_iff_exists'.mp hne
          exact hmem (List.mem_of_getElem? (h.of_some new index hindex))
        have hindices : (table.recordToolCall call).toolCallIndicesById =
            (new, table.toolCalls.length) :: table.toolCallIndicesById := by
          rw [ToolCallTable.recordToolCall, hid]
          simp only [hlookup]
        rw [hid, if_neg fun hboth => hmem hboth.2] at hids
        refine ⟨fun id index hfound => ?_, fun id hfound => ?_⟩
        · rw [hindices, List.lookup_cons] at hfound
          rw [hids]
          split at hfound
          · next heq =>
            obtain rfl := eq_of_beq heq
            obtain rfl := Option.some.inj hfound
            rw [ids, List.getElem?_append_right (by simp)]
            simp
          · exact getElem?_append_of_eq_some (h.of_some id index hfound) _
        · rw [hindices, List.lookup_cons] at hfound
          split at hfound
          · cases hfound
          · next hne =>
            rw [hids, List.mem_append, List.mem_singleton]
            rintro (hold | hnew)
            · exact h.of_none id hfound hold
            · simp [Option.some.inj hnew] at hne

/-- An id is at one place only. -/
theorem index_unique (hnodup : (table.ids.filterMap id).Nodup) {id : Text} {i j : Nat}
    (hi : table.ids[i]? = some (some id)) (hj : table.ids[j]? = some (some id)) : i = j := by
  obtain ⟨hilt, hiid⟩ := List.getElem?_eq_some_iff.mp hi
  obtain ⟨hjlt, hjid⟩ := List.getElem?_eq_some_iff.mp hj
  have hpairs := List.pairwise_iff_getElem.mp (List.pairwise_filterMap.mp hnodup)
  rcases lt_trichotomy i j with hless | heq | hmore
  · exact absurd rfl (hpairs i j hilt hjlt hless id hiid id hjid)
  · exact heq
  · exact absurd rfl (hpairs j i hjlt hilt hmore id hjid id hiid)

theorem filterMap_id_ids (table : ToolCallTable) :
    table.ids.filterMap id = table.toolCalls.filterMap ToolCall.id := by
  rw [ids, List.filterMap_map]
  rfl

/-- A call that is there under its id is there already. -/
theorem recordToolCall_of_mem_toolCalls (h : Indexed table)
    (hnodup : (table.toolCalls.filterMap ToolCall.id).Nodup) (hmem : call ∈ table.toolCalls)
    (hid : call.id ≠ none) : table.recordToolCall call = table := by
  obtain ⟨id, hid⟩ := Option.ne_none_iff_exists'.mp hid
  obtain ⟨index, hindex, hrecord⟩ := recordToolCall_of_mem h hid
    (hid ▸ List.mem_map_of_mem hmem)
  obtain ⟨i, hi⟩ := List.mem_iff_getElem?.mp hmem
  have hplace : table.ids[i]? = some (some id) := by
    rw [ids, List.getElem?_map, hi, Option.map_some, hid]
  rw [← filterMap_id_ids] at hnodup
  obtain rfl := index_unique hnodup hplace hindex
  rw [hrecord, set_eq_self hi]

/-- No two calls get the same id. -/
theorem nodup_ids_recordToolCall (h : Indexed table) (hnodup : (table.ids.filterMap id).Nodup)
    (call : ToolCall) : ((table.recordToolCall call).ids.filterMap id).Nodup := by
  rw [ids_recordToolCall h]
  split
  · exact hnodup
  · next hnew =>
    rw [List.filterMap_append]
    cases hid : call.id with
    | none => simpa using hnodup
    | some new =>
        have hne : some new ∉ table.ids := fun hmem => hnew ⟨by simp [hid], hid ▸ hmem⟩
        refine List.Nodup.append hnodup (by simp) ?_
        intro x hx hx'
        simp only [List.filterMap_cons, id, List.filterMap_nil, List.mem_singleton] at hx'
        subst hx'
        obtain ⟨y, hy, hyx⟩ := List.mem_filterMap.mp hx
        exact hne (hyx ▸ hy)

/-! ## All calls of a stream -/

def recordAll (table : ToolCallTable) (calls : List ToolCall) : ToolCallTable :=
  calls.foldl recordToolCall table

theorem Indexed.recordAll (h : Indexed table) (calls : List ToolCall) :
    Indexed (table.recordAll calls) := by
  induction calls generalizing table with
  | nil => exact h
  | cons call calls ih => exact ih (h.recordToolCall call)

/-- No call without an id is lost. -/
theorem count_none_ids_recordAll (h : Indexed table) (calls : List ToolCall) :
    (table.recordAll calls).ids.count none =
      table.ids.count none + (calls.map ToolCall.id).count none := by
  induction calls generalizing table with
  | nil => rfl
  | cons call calls ih =>
      rw [ToolCallTable.recordAll, List.foldl_cons]
      refine (ih (h.recordToolCall call)).trans ?_
      rw [ids_recordToolCall h, List.map_cons, List.count_cons]
      split
      · next hmem => simp [hmem.1]
      · rw [List.count_append, List.count_singleton]
        omega

/-- No two calls have the same id. -/
theorem nodup_ids_recordAll (h : Indexed table) (hnodup : (table.ids.filterMap id).Nodup)
    (calls : List ToolCall) : ((table.recordAll calls).ids.filterMap id).Nodup := by
  induction calls generalizing table with
  | nil => exact hnodup
  | cons call calls ih => exact ih (h.recordToolCall call) (nodup_ids_recordToolCall h hnodup call)

/-- Calls of new ids are added. -/
theorem recordAll_of_nodup (h : Indexed table) (hnodup : (calls.filterMap ToolCall.id).Nodup)
    (hnew : ∀ call ∈ calls, call.id = none ∨ call.id ∉ table.ids) :
    (table.recordAll calls).toolCalls = table.toolCalls ++ calls := by
  induction calls generalizing table with
  | nil => exact (List.append_nil _).symm
  | cons call calls ih =>
      have hcall := recordToolCall_of_notMem h (hnew call List.mem_cons_self)
      rw [ToolCallTable.recordAll, List.foldl_cons]
      refine (ih (h.recordToolCall call) ?_ ?_).trans ?_
      · exact hnodup.sublist ((List.sublist_cons_self call calls).filterMap _)
      · intro later hlater
        refine (hnew later (List.mem_cons_of_mem _ hlater)).elim .inl fun hnot => ?_
        rw [or_iff_not_imp_left]
        intro hid hmem
        rw [ids, hcall, List.map_append, List.mem_append] at hmem
        refine hmem.elim hnot fun hsame => ?_
        obtain ⟨id, hid⟩ := Option.ne_none_iff_exists'.mp hid
        have hfirst : call.id = some id := (List.mem_singleton.mp hsame).symm.trans hid
        rw [List.filterMap_cons_some hfirst, List.nodup_cons] at hnodup
        exact hnodup.1 (List.mem_filterMap.mpr ⟨later, hlater, hid⟩)
      · rw [hcall, List.append_assoc]
        rfl

/-- Calls that are there are there already. -/
theorem recordAll_of_mem (h : Indexed table)
    (hnodup : (table.toolCalls.filterMap ToolCall.id).Nodup)
    (hmem : ∀ call ∈ calls, call ∈ table.toolCalls) (hid : ∀ call ∈ calls, call.id ≠ none) :
    table.recordAll calls = table := by
  induction calls with
  | nil => rfl
  | cons call calls ih =>
      rw [List.forall_mem_cons] at hmem hid
      rw [recordAll, List.foldl_cons, recordToolCall_of_mem_toolCalls h hnodup hmem.1 hid.1]
      exact ih hmem.2 hid.2

/-- **Calls that are recorded are the calls kept** exactly if no two have the same id. -/
theorem recordAll_eq_iff (calls : List ToolCall) :
    (empty.recordAll calls).toolCalls = calls ↔ (calls.filterMap ToolCall.id).Nodup := by
  constructor
  · intro heq
    have hnodup := nodup_ids_recordAll indexed_empty List.nodup_nil calls
    rwa [ids, heq, List.filterMap_map] at hnodup
  · intro hnodup
    exact recordAll_of_nodup indexed_empty hnodup fun _ _ => .inr (by simp [ids, empty])

/-- **Calls that are recorded twice are the calls kept** exactly if all have ids and no two the
same. -/
theorem recordAll_twice_eq_iff (calls : List ToolCall) :
    ((empty.recordAll calls).recordAll calls).toolCalls = calls ↔
      (∀ call ∈ calls, call.id ≠ none) ∧ (calls.filterMap ToolCall.id).Nodup := by
  have honce := indexed_empty.recordAll calls
  constructor
  · intro heq
    have hids : ((empty.recordAll calls).recordAll calls).ids = calls.map ToolCall.id := by
      rw [ids, heq]
    have hcount := count_none_ids_recordAll honce calls
    rw [count_none_ids_recordAll indexed_empty, hids] at hcount
    have hnone : (calls.map ToolCall.id).count none = 0 := by
      rw [show (empty.ids).count none = 0 from rfl] at hcount
      omega
    refine ⟨fun call hcall hid => ?_, ?_⟩
    · exact List.count_eq_zero.mp hnone (hid ▸ List.mem_map_of_mem hcall)
    · have hnodup := nodup_ids_recordAll honce
        (nodup_ids_recordAll indexed_empty List.nodup_nil calls) calls
      rwa [hids, List.filterMap_map] at hnodup
  · rintro ⟨hsome, hnodup⟩
    have hcalls := (recordAll_eq_iff calls).mpr hnodup
    rw [recordAll_of_mem honce (by rwa [hcalls]) (fun _ hcall => by rwa [hcalls]) hsome, hcalls]

/-! ## What is kept -/

/-- Each id where it comes first, and every call that has none. -/
def firstIds : List (Option Text) → List (Option Text)
  | [] => []
  | none :: ids => none :: firstIds ids
  | some id :: ids => some id :: (firstIds ids).filter (· ≠ some id)

theorem mem_firstIds {id : Option Text} {ids : List (Option Text)} :
    id ∈ firstIds ids ↔ id ∈ ids := by
  induction ids with
  | nil => rfl
  | cons first ids ih =>
      cases first with
      | none => rw [firstIds, List.mem_cons, List.mem_cons, ih]
      | some first =>
          rw [firstIds, List.mem_cons, List.mem_cons, List.mem_filter, decide_eq_true_eq, ih]
          by_cases heq : id = some first
          · exact iff_of_true (.inl heq) (.inl heq)
          · rw [or_iff_right heq, or_iff_right heq, and_iff_left heq]

/-- An id that comes last is added, unless it has come before. -/
theorem firstIds_concat (ids : List (Option Text)) (id : Option Text) :
    firstIds (ids ++ [id]) =
      if id ≠ none ∧ id ∈ ids then firstIds ids else firstIds ids ++ [id] := by
  induction ids with
  | nil =>
      rw [if_neg fun h => List.not_mem_nil h.2]
      cases id <;> rfl
  | cons first ids ih =>
      cases first with
      | none =>
          rw [List.cons_append, firstIds, ih, firstIds]
          by_cases hid : id = none
          · rw [if_neg fun h => h.1 hid, if_neg fun h => h.1 hid]
            rfl
          · simp only [List.mem_cons, hid, false_or, ne_eq, not_false_eq_true, true_and]
            split <;> rfl
      | some first =>
          rw [List.cons_append, firstIds, ih, firstIds]
          by_cases heq : id = some first
          · rw [if_pos (⟨by simp [heq], by simp [heq]⟩ : id ≠ none ∧ id ∈ some first :: ids)]
            split
            · rfl
            · rw [List.filter_append]
              simp [heq]
          · simp only [List.mem_cons, heq, false_or]
            split
            · rfl
            · rw [List.filter_append]
              simp [heq]

/-- What is emitted of the calls received: they are in the order in which their ids came first,
each as it came last, and those without an id are all there. -/
structure Emits (received emitted : List ToolCall) : Prop where
  nodup : (emitted.filterMap ToolCall.id).Nodup
  order : emitted.map ToolCall.id = firstIds (received.map ToolCall.id)
  last : ∀ call ∈ emitted, call.id ≠ none →
    (received.filter fun other => other.id = call.id).getLast? = some call
  withoutId : emitted.filter (fun call => call.id = none) =
    received.filter fun call => call.id = none

theorem emits_nil : Emits [] [] := ⟨List.nodup_nil, rfl, by simp, rfl⟩

theorem getLast?_filter_concat_of_pos {α : Type} {p : α → Bool} {a : α} (h : p a = true)
    (l : List α) : ((l ++ [a]).filter p).getLast? = some a := by
  rw [List.filter_append, List.filter_singleton, h, cond_true, List.getLast?_concat]

theorem filter_concat_of_neg {α : Type} {p : α → Bool} {a : α} (h : p a = false) (l : List α) :
    (l ++ [a]).filter p = l.filter p := by
  rw [List.filter_append, List.filter_singleton, h, cond_false, List.append_nil]

theorem filter_set_of_neg {α : Type} {p : α → Bool} {l : List α} {i : Nat} {a b : α}
    (hb : l[i]? = some b) (hpb : p b = false) (hpa : p a = false) :
    (l.set i a).filter p = l.filter p := by
  induction l generalizing i with
  | nil => rfl
  | cons c l ih =>
      cases i with
      | zero =>
          obtain rfl := Option.some.inj hb
          rw [List.set_cons_zero, List.filter_cons_of_neg (by simp [hpa]),
            List.filter_cons_of_neg (by simp [hpb])]
      | succ i => rw [List.set_cons_succ, List.filter_cons, List.filter_cons, ih hb]

/-- **One call more goes where its id has been, or to the end.** -/
theorem Emits.recordToolCall {received : List ToolCall} (hindexed : Indexed table)
    (h : Emits received table.toolCalls) (call : ToolCall) :
    Emits (received ++ [call]) (table.recordToolCall call).toolCalls := by
  have hnodup : (table.ids.filterMap id).Nodup := filterMap_id_ids table ▸ h.nodup
  have hids : ∀ id, id ∈ table.ids ↔ id ∈ received.map ToolCall.id := fun id => by
    rw [ids, h.order, mem_firstIds]
  have horder : (table.recordToolCall call).ids =
      firstIds ((received ++ [call]).map ToolCall.id) := by
    rw [ids_recordToolCall hindexed, List.map_append, List.map_singleton, firstIds_concat,
      ← h.order, ← ids]
    simp only [hids]
  have hnodup' := nodup_ids_recordToolCall hindexed hnodup call
  rw [filterMap_id_ids] at hnodup'
  suffices hrest : (∀ other ∈ (table.recordToolCall call).toolCalls, other.id ≠ none →
      ((received ++ [call]).filter fun each => each.id = other.id).getLast? = some other) ∧
        (table.recordToolCall call).toolCalls.filter (fun each => each.id = none) =
          (received ++ [call]).filter fun each => each.id = none from
    ⟨hnodup', horder, hrest.1, hrest.2⟩
  by_cases hmem : call.id ≠ none ∧ call.id ∈ table.ids
  · obtain ⟨id, hid⟩ := Option.ne_none_iff_exists'.mp hmem.1
    obtain ⟨index, hindex, hrecord⟩ := recordToolCall_of_mem hindexed hid (hid ▸ hmem.2)
    rw [hrecord]
    constructor
    · intro other hother hne
      obtain ⟨j, hj⟩ := List.mem_iff_getElem?.mp hother
      rw [List.getElem?_set] at hj
      split at hj
      · next heq =>
        split at hj
        · obtain rfl := Option.some.inj hj
          exact getLast?_filter_concat_of_pos (by simp) received
        · cases hj
      · next hdiffer =>
        -- the id is at the place of the new call only
        have hidne : call.id ≠ other.id := fun hsame => hdiffer <| index_unique hnodup hindex <| by
          rw [ids, List.getElem?_map, hj, Option.map_some, ← hsame, hid]
        rw [filter_concat_of_neg (by simpa using hidne)]
        exact h.last other (List.mem_of_getElem? hj) hne
    · rw [ids, List.getElem?_map, Option.map_eq_some_iff] at hindex
      obtain ⟨old, hold, holdId⟩ := hindex
      rw [filter_set_of_neg hold (by simp [holdId]) (by simp [hid]),
        filter_concat_of_neg (by simp [hid]), h.withoutId]
  · have hnew : call.id = none ∨ call.id ∉ table.ids := by
      rwa [not_and_or, not_not] at hmem
    rw [recordToolCall_of_notMem hindexed hnew]
    constructor
    · intro other hother hne
      obtain hother | hother := List.mem_append.mp hother
      · have hidne : call.id ≠ other.id := fun hsame =>
          hmem ⟨hsame ▸ hne, hsame ▸ List.mem_map_of_mem hother⟩
        rw [filter_concat_of_neg (by simpa using hidne)]
        exact h.last other hother hne
      · obtain rfl := List.mem_singleton.mp hother
        exact getLast?_filter_concat_of_pos (by simp) received
    · rw [List.filter_append, List.filter_append, h.withoutId]

/-- **What is kept of any calls.** -/
theorem emits_recordAll (received : List ToolCall) :
    Emits received (empty.recordAll received).toolCalls := by
  induction received using List.reverseRecOn with
  | nil => exact emits_nil
  | append_singleton received call ih =>
      rw [recordAll, List.foldl_append]
      exact ih.recordToolCall (indexed_empty.recordAll received) call

end ToolCallTable
end Providers
end SimpleClaw
